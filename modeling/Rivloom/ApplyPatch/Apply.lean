import Mathlib.Logic.Function.Basic
import Rivloom.ApplyPatch.FileUpdate

/-!
# Applying hunks to files

Hunks are applied one after the other to a file system, and a **delta** is kept of
what they did (`Rivloom.ApplyPatch.AppliedPatchDelta`): the changes in order, and a
flag that says whether they are all there was. This file is a model of
`apply_hunks_to_files` with every file operation in it, in the order of the source,
those included that only look at a file for the sake of the delta.

The file system holds texts under paths (`Rivloom.ApplyPatch.World`), and it may
fail: every operation takes the next entry off a list of faults, and a fault says
what the failed operation leaves behind – a failed write any content at all, a
failed removal the file or nothing. What cannot be a lie is the answer that there is
no file: it is given of paths without one.
-/

namespace Rivloom.ApplyPatch

/-! ### Paths and files -/

/-- What is asked of paths: how a text is resolved against one, the directory a path
is in, which directories have to be there for a directory to be, and how a path is
written. -/
structure PathSpace (Path : Type) where
  join : Path → Text → Option Path
  parent : Path → Option Path
  /-- A directory is needed by another: it is the other, or the other is inside. -/
  needs : Path → Path → Bool
  needs_self : ∀ d, needs d d = true
  native : Path → Text

/-- `io::ErrorKind`, as far as it is looked at. -/
inductive ErrorKind where
  | notFound
  | other
  deriving Repr, DecidableEq

/-- A failure of a file operation. -/
structure Fault where
  kind : ErrorKind
  /-- What a failed write leaves under the path. -/
  left : Option Text
  /-- Whether a failed removal has removed the file. -/
  removed : Bool
  deriving Repr, DecidableEq

/-- The file system. -/
structure World (Path : Type) where
  files : Path → Option Text
  /-- The directories that are missing. -/
  missing : Path → Bool
  /-- The faults to come, one entry for each operation; behind the last there are
  none. -/
  faults : List (Option Fault)

/-- `Metadata`, as far as it is looked at. -/
structure Metadata where
  isFile : Bool
  isSymlink : Bool
  isDirectory : Bool
  deriving Repr, DecidableEq

variable {Path : Type} [DecidableEq Path]

namespace World

/-- The world behind the next operation. -/
def rest (w : World Path) : World Path := { w with faults := w.faults.tail }

/-- The fault of the next operation. -/
def fault (w : World Path) : Option Fault := w.faults.head?.join

/-- The kind of the error about a file that is only looked at. That it is not `notFound` if there
is a file is **assumed of the file system**: it is the kind from which the source concludes that
there is none. -/
def kindOf (w : World Path) (path : Path) (fault : Fault) : ErrorKind :=
  if (w.files path).isSome then .other else fault.kind

/-- `read_file_text`. -/
def readFileText (path : Path) : Action (World Path) ErrorKind Text := fun w =>
  match w.fault, w.files path with
  | some fault, _ => (.error (w.kindOf path fault), w.rest)
  | none, some text => (.ok text, w.rest)
  | none, none => (.error .notFound, w.rest)

/-- `get_metadata`. -/
def getMetadata (path : Path) : Action (World Path) ErrorKind Metadata := fun w =>
  match w.fault, w.files path with
  | some fault, _ => (.error (w.kindOf path fault), w.rest)
  | none, some _ => (.ok ⟨true, false, false⟩, w.rest)
  | none, none => (.error .notFound, w.rest)

/-- The world with other contents under a path. -/
def put (w : World Path) (path : Path) (contents : Option Text) : World Path :=
  { w with files := Function.update w.files path contents }

/-- `write_file`. -/
def writeFile (space : PathSpace Path) (path : Path) (contents : Text) :
    Action (World Path) ErrorKind Unit := fun w =>
  match w.fault with
  | some fault => (.error fault.kind, w.rest.put path fault.left)
  | none =>
    if (space.parent path).any w.missing then (.error .notFound, w.rest)
    else (.ok (), w.rest.put path (some contents))

/-- `create_directory`, with the directories it is in. -/
def createDirectory (space : PathSpace Path) (directory : Path) :
    Action (World Path) ErrorKind Unit := fun w =>
  match w.fault with
  | some fault => (.error fault.kind, w.rest)
  | none =>
    (.ok (), { w.rest with missing := fun d => w.missing d && !space.needs directory d })

/-- `remove`, of a file. -/
def remove (path : Path) : Action (World Path) ErrorKind Unit := fun w =>
  match w.fault, w.files path with
  | some fault, _ =>
    (.error fault.kind, if fault.removed then w.rest.put path none else w.rest)
  | none, some _ => (.ok (), w.rest.put path none)
  | none, none => (.error .notFound, w.rest)

end World

/-! ### Deltas -/

/-- `AppliedPatchFileChange`. -/
inductive AppliedPatchFileChange (Path : Type) where
  | add (content : Text) (overwrittenContent : Option Text)
  | delete (content : Text)
  | update (movePath : Option Path) (oldContent : Text) (overwrittenMoveContent : Option Text)
      (newContent : Text)
  deriving Repr, DecidableEq

/-- `AppliedPatchChange`. -/
structure AppliedPatchChange (Path : Type) where
  path : Path
  change : AppliedPatchFileChange Path
  deriving Repr, DecidableEq

/-- `AppliedPatchDelta`. -/
structure AppliedPatchDelta (Path : Type) where
  changes : List (AppliedPatchChange Path)
  exact : Bool
  deriving Repr, DecidableEq

/-- An error of the application. -/
inductive ApplyError (Path : Type) where
  | noFilesModified
  /-- A text of the patch is not a path. -/
  | pathUri (text : Text)
  /-- A file operation failed; the text says at what. -/
  | io (context : String) (path : Path) (kind : ErrorKind)
  | computeReplacements (message : String)
  deriving Repr, DecidableEq

/-- The application of a patch: the file system, and the delta so far. -/
structure Session (Path : Type) where
  world : World Path
  delta : AppliedPatchDelta Path

/-! ### File operations for the delta -/

/-- A file operation of the application; its failure is an error with a context. -/
def onWorld {α : Type} (context : String) (path : Path) (x : Action (World Path) ErrorKind α) :
    Action (Session Path) (ApplyError Path) α :=
  Action.focus (·.world) (fun w s => { s with world := w }) (.io context path) x

/-- A file operation whose failure is looked at. -/
def tryOnWorld {α : Type} (x : Action (World Path) ErrorKind α) :
    Action (Session Path) (ApplyError Path) (Except ErrorKind α) :=
  Action.focus (·.world) (fun w s => { s with world := w }) id x.attempt

/-- The delta is no longer all there was. -/
def inexact : Action (Session Path) (ApplyError Path) Unit :=
  Action.modify fun s => { s with delta := { s.delta with exact := false } }

/-- The delta is all there was only if it was and this holds. -/
def exactAnd (c : Bool) : Action (Session Path) (ApplyError Path) Unit :=
  Action.modify fun s => { s with delta := { s.delta with exact := s.delta.exact && c } }

/-- Enters a change. -/
def pushChange (change : AppliedPatchChange Path) : Action (Session Path) (ApplyError Path) Unit :=
  Action.modify fun s => { s with delta := { s.delta with changes := s.delta.changes ++ [change] } }

/-- What `note_existing_path_delta_support` makes of the metadata. -/
def noteMetadata : Except ErrorKind Metadata → Action (Session Path) (ApplyError Path) Unit
  | .ok metadata => if metadata.isFile && !metadata.isSymlink then pure () else inexact
  | .error .notFound => pure ()
  | .error .other => inexact

/-- `note_existing_path_delta_support`. -/
def noteExistingPathDeltaSupport (path : Path) : Action (Session Path) (ApplyError Path) Unit := do
  noteMetadata (← tryOnWorld (World.getMetadata path))

/-- What `read_optional_file_text_for_delta` makes of the text. -/
def optionalText : Except ErrorKind Text → Action (Session Path) (ApplyError Path) (Option Text)
  | .ok content => pure (some content)
  | .error .notFound => pure none
  | .error .other => do
    inexact
    return none

/-- `read_optional_file_text_for_delta`. -/
def readOptionalFileTextForDelta (path : Path) :
    Action (Session Path) (ApplyError Path) (Option Text) := do
  noteExistingPathDeltaSupport path
  optionalText (← tryOnWorld (World.readFileText path))

/-- `ensure_not_directory`. -/
def ensureNotDirectory (context : String) (path : Path) :
    Action (Session Path) (ApplyError Path) Unit := do
  let metadata ← onWorld context path (World.getMetadata path)
  Action.ensure (!metadata.isDirectory) (.io context path .other)

/-- `remove_failure_was_side_effect_free`. -/
def removeFailureWasSideEffectFree (path : Path) (expectedContent : Option Text) :
    Action (Session Path) (ApplyError Path) Bool :=
  match expectedContent with
  | none => pure false
  | some expected => do
    let text ← tryOnWorld (World.readFileText path)
    return text.toOption = some expected

/-- `try_write!`: a failed write may have changed the file. -/
def tryWrite {α : Type} (x : Action (Session Path) (ApplyError Path) α) :
    Action (Session Path) (ApplyError Path) α := do
  match ← x.attempt with
  | .ok a => pure a
  | .error e => do
    inexact
    Action.fail e

/-- Creates the directory a path is in. -/
def createParent (space : PathSpace Path) (path : Path) :
    Action (Session Path) (ApplyError Path) Unit :=
  match space.parent path with
  | some parent =>
    onWorld "Failed to create parent directories for" path (World.createDirectory space parent)
  | none => pure ()

/-- The second attempt of `write_file_with_missing_parent_retry`. -/
def retryWrite (space : PathSpace Path) (path : Path) (contents : Text) :
    Action (Session Path) (ApplyError Path) Unit := do
  createParent space path
  onWorld "Failed to write file" path (World.writeFile space path contents)

/-- `write_file_with_missing_parent_retry`. -/
def writeFileWithMissingParentRetry (space : PathSpace Path) (path : Path) (contents : Text) :
    Action (Session Path) (ApplyError Path) Unit := do
  match ← tryOnWorld (World.writeFile space path contents) with
  | .ok () => pure ()
  | .error .notFound => retryWrite space path contents
  | .error .other => Action.fail (.io "Failed to write file" path .other)

/-- Removes a file; if that fails the delta stays exact only if the file still holds
what is expected. -/
def removeForDelta (context : String) (path : Path) (expectedContent : Option Text) :
    Action (Session Path) (ApplyError Path) Unit := do
  match ← tryOnWorld (World.remove path) with
  | .ok () => pure ()
  | .error kind => do
    exactAnd (← removeFailureWasSideEffectFree path expectedContent)
    Action.fail (.io context path kind)

/-! ### Hunks -/

/-- `AppliedPatch`. -/
structure AppliedPatch where
  originalContents : Text
  newContents : Text
  deriving Repr, DecidableEq

/-- `derive_new_contents_from_chunks`. -/
def deriveNewContentsFromChunks (space : PathSpace Path) (mode : ApplyPatchFileUpdateMode)
    (path : Path) (chunks : List UpdateFileChunk) :
    Action (World Path) (ApplyError Path) AppliedPatch := do
  let original ← Action.focus id (fun w _ => w) (.io "Failed to read file to update" path)
    (World.readFileText path)
  let contents ← Action.lift
    ((newContents mode (space.native path) chunks original).mapError .computeReplacements)
  return ⟨original, contents⟩

/-- A text of the patch, as a path. -/
def resolve (space : PathSpace Path) (cwd : Path) (text : Text) :
    Action (Session Path) (ApplyError Path) Path :=
  Action.orElse (space.join cwd text) (.pathUri text)

/-- The file of an added hunk. -/
def applyAdd (space : PathSpace Path) (path : Path) (contents : Text) :
    Action (Session Path) (ApplyError Path) Unit := do
  let overwritten ← readOptionalFileTextForDelta path
  tryWrite (writeFileWithMissingParentRetry space path contents)
  pushChange ⟨path, .add contents overwritten⟩

/-- Enters the deletion of a file whose content is known. -/
def pushDelete (path : Path) : Option Text → Action (Session Path) (ApplyError Path) Unit
  | some content => pushChange ⟨path, .delete content⟩
  | none => pure ()

/-- The content of a file that is to be deleted, for the delta. -/
def readForDelete (path : Path) : Action (Session Path) (ApplyError Path) (Option Text) := do
  match ← tryOnWorld (World.readFileText path) with
  | .ok content => pure (some content)
  | .error _ => do
    inexact
    return none

/-- The file of a deleted hunk. -/
def applyDelete (path : Path) : Action (Session Path) (ApplyError Path) Unit := do
  noteExistingPathDeltaSupport path
  let deletedContent ← readForDelete path
  ensureNotDirectory "Failed to delete file" path
  removeForDelta "Failed to delete file" path deletedContent
  pushDelete path deletedContent

/-- Replaces the last change of the delta, which was entered for the destination of a
move. -/
def replaceLastChange (change : AppliedPatchChange Path) :
    Action (Session Path) (ApplyError Path) Unit :=
  Action.modify fun s =>
    { s with delta := { s.delta with changes := s.delta.changes.dropLast ++ [change] } }

/-- The part of an update with a destination behind the new contents: the destination is
written and entered, then the file is removed and the entry becomes that of the whole
move. -/
def applyMove (space : PathSpace Path) (path dest : Path) (applied : AppliedPatch) :
    Action (Session Path) (ApplyError Path) Unit := do
  let overwritten ← readOptionalFileTextForDelta dest
  tryWrite (writeFileWithMissingParentRetry space dest applied.newContents)
  pushChange ⟨dest, .add applied.newContents overwritten⟩
  ensureNotDirectory "Failed to remove original" path
  removeForDelta "Failed to remove original" path (some applied.originalContents)
  replaceLastChange
    ⟨path, .update (some dest) applied.originalContents overwritten applied.newContents⟩

/-- The part of an update in place behind the new contents. -/
def applyInPlace (space : PathSpace Path) (path : Path) (applied : AppliedPatch) :
    Action (Session Path) (ApplyError Path) Unit := do
  tryWrite (onWorld "Failed to write file" path
    (World.writeFile space path applied.newContents))
  pushChange ⟨path, .update none applied.originalContents none applied.newContents⟩

/-- What an update does with the new contents. -/
def applyTo (space : PathSpace Path) (cwd path : Path) (movePath : Option Text)
    (applied : AppliedPatch) : Action (Session Path) (ApplyError Path) Unit :=
  match movePath with
  | some text => do
    let dest ← resolve space cwd text
    applyMove space path dest applied
  | none => applyInPlace space path applied

/-- The file of an updated hunk. -/
def applyUpdate (space : PathSpace Path) (mode : ApplyPatchFileUpdateMode) (cwd path : Path)
    (movePath : Option Text) (chunks : List UpdateFileChunk) :
    Action (Session Path) (ApplyError Path) Unit := do
  noteExistingPathDeltaSupport path
  let applied ← Action.focus (·.world) (fun w s => { s with world := w }) id
    (deriveNewContentsFromChunks space mode path chunks)
  applyTo space cwd path movePath applied

/-- The text that `Hunk::resolve_path` resolves. -/
def Hunk.sourceText : Hunk → Text
  | .addFile path _ => path
  | .deleteFile path => path
  | .updateFile path _ _ => path

/-- `AffectedPaths`. -/
structure AffectedPaths where
  added : List Text
  modified : List Text
  deleted : List Text
  deriving Repr, DecidableEq

/-- The path of a hunk, under what is done to it; of a move it is the destination. -/
def AffectedPaths.note (affected : AffectedPaths) : Hunk → AffectedPaths
  | .addFile path _ => { affected with added := affected.added ++ [path] }
  | .deleteFile path => { affected with deleted := affected.deleted ++ [path] }
  | .updateFile path movePath _ =>
    { affected with modified := affected.modified ++ [movePath.getD path] }

/-- What a hunk does to the file at its path. -/
def applyHunkAt (space : PathSpace Path) (mode : ApplyPatchFileUpdateMode) (cwd path : Path) :
    Hunk → Action (Session Path) (ApplyError Path) Unit
  | .addFile _ contents => applyAdd space path contents
  | .deleteFile _ => applyDelete path
  | .updateFile _ movePath chunks => applyUpdate space mode cwd path movePath chunks

/-- One round of the loop of `apply_hunks_to_files`. -/
def applyHunk (space : PathSpace Path) (mode : ApplyPatchFileUpdateMode) (cwd : Path)
    (hunk : Hunk) : Action (Session Path) (ApplyError Path) Unit := do
  let path ← resolve space cwd hunk.sourceText
  applyHunkAt space mode cwd path hunk

/-- The loop of `apply_hunks_to_files`. -/
def applyHunks (space : PathSpace Path) (mode : ApplyPatchFileUpdateMode) (cwd : Path) :
    List Hunk → AffectedPaths → Action (Session Path) (ApplyError Path) AffectedPaths
  | [], affected => pure affected
  | hunk :: rest, affected => do
    applyHunk space mode cwd hunk
    applyHunks space mode cwd rest (affected.note hunk)

/-- `apply_hunks_to_files`. -/
def applyHunksToFiles (space : PathSpace Path) (mode : ApplyPatchFileUpdateMode) (cwd : Path)
    (hunks : List Hunk) : Action (Session Path) (ApplyError Path) AffectedPaths := do
  Action.ensure (!hunks.isEmpty) .noFilesModified
  applyHunks space mode cwd hunks ⟨[], [], []⟩

/-- The application of hunks to a file system, with the delta it returns with its success
or its failure. -/
def applyHunksWithDelta (space : PathSpace Path) (mode : ApplyPatchFileUpdateMode) (cwd : Path)
    (hunks : List Hunk) (w : World Path) : Except (ApplyError Path) AffectedPaths × Session Path :=
  applyHunksToFiles space mode cwd hunks ⟨w, ⟨[], true⟩⟩

end Rivloom.ApplyPatch
