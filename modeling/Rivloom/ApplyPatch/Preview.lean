import Rivloom.ApplyPatch.Delta
import Mathlib.Data.List.Perm.Basic

/-!
# The preview of a patch

Before a patch is applied it is verified, and what the verification returns is shown
for approval: `Rivloom.ApplyPatch.tryVerifyApplyPatchArgs` reads the files of the
patch and computes the change of each. It looks at every hunk by itself, on the files
as they are before the patch, while the application works on the files as the hunks
before have left them.

The two agree as long as no hunk touches what another one reads or writes. The paths
of the hunks are kept apart by the verification, which refuses a path that has a
change already; the destinations of moves are not compared with anything
(`Rivloom.ApplyPatch.Unaliased` asks for it). And a patch without hunks is verified,
but the application refuses it. For the patches that remain, the application
succeeds and the files that it leaves are the ones that were shown
(`Rivloom.ApplyPatch.preview_is_the_effect`).
-/

namespace Rivloom.ApplyPatch

open Rivloom.Action (andThen_ok bind_eq_ok focus of_wp wp wp_bind wp_ensure wp_focus wp_lift wp_mono
  wp_orElse)
open Function (update_of_ne update_self)

variable {Path : Type} [DecidableEq Path] {w : World Path} {path : Path} {hunk : Hunk}

/-! ### Verification -/

/-- `ApplyPatchFileChange`. -/
inductive ApplyPatchFileChange (Path : Type) where
  | add (content : Text)
  | delete (content : Text)
  | update (unifiedDiff : Text) (movePath : Option Path) (newContent : Text)
  deriving Repr, DecidableEq

/-- `ApplyPatchAction`, with the changes in the order of the hunks. -/
structure ApplyPatchAction (Path : Type) where
  changes : List (Path × ApplyPatchFileChange Path)
  updateFileMode : ApplyPatchFileUpdateMode
  patch : Text
  cwd : Path
  deriving Repr, DecidableEq

/-- An error of the verification. -/
inductive VerifyError (Path : Type) where
  | apply (e : ApplyError Path)
  /-- The path has a change already. -/
  | multipleOperations (path : Path)
  deriving Repr, DecidableEq

/-- A text of the patch, as a path. -/
def resolveText (space : PathSpace Path) (cwd : Path) (text : Text) :
    Action (World Path) (VerifyError Path) Path :=
  Action.orElse (space.join cwd text) (.apply (.pathUri text))

/-- The destination of an update, as a path. -/
def resolveMove (space : PathSpace Path) (cwd : Path) :
    Option Text → Action (World Path) (VerifyError Path) (Option Path)
  | none => pure none
  | some text => do
    let dest ← resolveText space cwd text
    return some dest

/-- The change of a hunk to the file at its path, on the files as they are. The diff that
is shown for an update is a parameter. -/
def previewChange (space : PathSpace Path) (diff : Text → Text → Text)
    (mode : ApplyPatchFileUpdateMode) (cwd path : Path) :
    Hunk → Action (World Path) (VerifyError Path) (ApplyPatchFileChange Path)
  | .addFile _ contents => pure (.add contents)
  | .deleteFile _ => do
    let content ← focus id (fun w _ => w)
      (fun kind => .apply (.io "Failed to read" path kind)) (World.readFileText path)
    return .delete content
  | .updateFile _ movePath chunks => do
    let applied ← focus id (fun w _ => w) .apply
      (deriveNewContentsFromChunks space mode path chunks)
    let dest ← resolveMove space cwd movePath
    return .update (diff applied.originalContents applied.newContents) dest applied.newContents

/-- One round of the loop of `try_verify_apply_patch_args`. -/
def previewHunk (space : PathSpace Path) (diff : Text → Text → Text)
    (mode : ApplyPatchFileUpdateMode) (cwd : Path)
    (changes : List (Path × ApplyPatchFileChange Path)) (hunk : Hunk) :
    Action (World Path) (VerifyError Path) (List (Path × ApplyPatchFileChange Path)) := do
  let path ← resolveText space cwd hunk.sourceText
  Action.ensure (path ∉ changes.map (·.1)) (.multipleOperations path)
  let change ← previewChange space diff mode cwd path hunk
  return changes ++ [(path, change)]

/-- The loop of `try_verify_apply_patch_args`. -/
def previewHunks (space : PathSpace Path) (diff : Text → Text → Text)
    (mode : ApplyPatchFileUpdateMode) (cwd : Path) :
    List Hunk → List (Path × ApplyPatchFileChange Path) →
      Action (World Path) (VerifyError Path) (List (Path × ApplyPatchFileChange Path))
  | [], changes => pure changes
  | hunk :: rest, changes => do
    let changes ← previewHunk space diff mode cwd changes hunk
    previewHunks space diff mode cwd rest changes

/-- The directory in which a patch is applied. -/
def effectiveCwd (space : PathSpace Path) (cwd : Path) (workdir : Option Text) :
    Action (World Path) (VerifyError Path) Path :=
  match workdir with
  | some directory => resolveText space cwd directory
  | none => pure cwd

/-- `try_verify_apply_patch_args`. -/
def tryVerifyApplyPatchArgs (space : PathSpace Path) (diff : Text → Text → Text)
    (args : ApplyPatchArgs) (cwd : Path) (mode : ApplyPatchFileUpdateMode) :
    Action (World Path) (VerifyError Path) (ApplyPatchAction Path) := do
  let cwd ← effectiveCwd space cwd args.workdir
  let changes ← previewHunks space diff mode cwd args.hunks []
  return ⟨changes, mode, args.patch, cwd⟩

/-! ### What a preview shows -/

namespace ApplyPatchFileChange

/-- The destination of a move. -/
def dest : ApplyPatchFileChange Path → Option Path
  | .update _ dest _ => dest
  | _ => none

/-- The files that a change is about. -/
def touched (path : Path) (change : ApplyPatchFileChange Path) : List Path :=
  path :: change.dest.toList

/-- A change is made to files. -/
def effect (path : Path) (files : Path → Option Text) :
    ApplyPatchFileChange Path → Path → Option Text
  | .add content => Function.update files path (some content)
  | .delete _ => Function.update files path none
  | .update _ none newContent => Function.update files path (some newContent)
  | .update _ (some dest) newContent =>
    Function.update (Function.update files dest (some newContent)) path none

/-- What a change shows of the files afterwards. -/
def Shows (path : Path) (files : Path → Option Text) : ApplyPatchFileChange Path → Prop
  | .add content => files path = some content
  | .delete _ => files path = none
  | .update _ none newContent => files path = some newContent
  | .update _ (some dest) newContent => files path = none ∧ files dest = some newContent

end ApplyPatchFileChange

/-- The paths that changes are about, as often as they are. -/
def touchedPaths (changes : List (Path × ApplyPatchFileChange Path)) : List Path :=
  changes.flatMap fun c => c.2.touched c.1

/-- Every path has one change. -/
def Apart (changes : List (Path × ApplyPatchFileChange Path)) : Prop :=
  (touchedPaths changes).Nodup

/-- The destinations of the moves. -/
def destinations (changes : List (Path × ApplyPatchFileChange Path)) : List Path :=
  changes.flatMap fun c => c.2.dest.toList

/-- No destination of a move is the destination of another, or the path of a hunk. -/
def Unaliased (changes : List (Path × ApplyPatchFileChange Path)) : Prop :=
  (destinations changes).Nodup ∧ ∀ path ∈ changes.map (·.1), path ∉ destinations changes

instance (changes : List (Path × ApplyPatchFileChange Path)) : Decidable (Unaliased changes) :=
  inferInstanceAs (Decidable ((destinations changes).Nodup ∧
    ∀ path ∈ changes.map (·.1), path ∉ destinations changes))

/-- **The files afterwards are the files before with exactly the changes shown.** -/
structure ExactlyShown (changes : List (Path × ApplyPatchFileChange Path))
    (before after : Path → Option Text) : Prop where
  shown : ∀ c ∈ changes, c.2.Shows c.1 after
  others : ∀ path, path ∉ touchedPaths changes → after path = before path

/-! ### Changes that do not meet -/

variable {change : ApplyPatchFileChange Path}

namespace ApplyPatchFileChange

theorem effect_of_not_touched {path other : Path} (h : other ∉ change.touched path)
    (files : Path → Option Text) : change.effect path files other = files other := by
  match change with
  | .add content => exact update_of_ne (by simpa [touched, dest] using h) _ _
  | .delete content => exact update_of_ne (by simpa [touched, dest] using h) _ _
  | .update _ none content => exact update_of_ne (by simpa [touched, dest] using h) _ _
  | .update _ (some dest) content =>
    simp only [touched, ApplyPatchFileChange.dest, Option.toList_some, List.mem_cons,
      List.not_mem_nil, or_false, not_or] at h
    rw [effect, update_of_ne h.1, update_of_ne h.2]

/-- A change makes what it shows, if it does not move a file onto itself. -/
theorem shows_effect (h : (change.touched path).Nodup) (files : Path → Option Text) :
    change.Shows path (change.effect path files) := by
  match change with
  | .add content => exact update_self _ _ _
  | .delete content => exact update_self _ _ _
  | .update _ none content => exact update_self _ _ _
  | .update _ (some dest) content =>
    have hne : path ≠ dest := by simpa [touched, ApplyPatchFileChange.dest] using h
    refine ⟨update_self _ _ _, ?_⟩
    rw [effect, update_of_ne hne.symm, update_self]

omit [DecidableEq Path] in
theorem Shows.congr {files files' : Path → Option Text} (h : change.Shows path files)
    (hfiles : ∀ p ∈ change.touched path, files' p = files p) : change.Shows path files' := by
  match change with
  | .add content => exact (hfiles path List.mem_cons_self).trans h
  | .delete content => exact (hfiles path List.mem_cons_self).trans h
  | .update _ none content => exact (hfiles path List.mem_cons_self).trans h
  | .update _ (some dest) content =>
    exact ⟨(hfiles path List.mem_cons_self).trans h.1,
      (hfiles dest (List.mem_cons_of_mem _ List.mem_cons_self)).trans h.2⟩

end ApplyPatchFileChange

variable {changes : List (Path × ApplyPatchFileChange Path)}

omit [DecidableEq Path] in
/-- Changes of different paths whose moves are not aliased are apart. -/
theorem apart_of_unaliased (hpaths : (changes.map (·.1)).Nodup) (h : Unaliased changes) :
    Apart changes := by
  have hperm : (changes.map (·.1) ++ destinations changes).Perm (touchedPaths changes) :=
    List.map_append_flatMap_perm changes (·.1) fun c => c.2.dest.toList
  refine hperm.nodup ?_
  rw [List.nodup_append]
  refine ⟨hpaths, h.1, fun path hpath dest hdest heq => ?_⟩
  exact h.2 path hpath (heq ▸ hdest)

/-- Changes made one after the other. -/
def allEffects (files : Path → Option Text) (changes : List (Path × ApplyPatchFileChange Path)) :
    Path → Option Text :=
  changes.foldl (fun files c => c.2.effect c.1 files) files

/-- **Changes that do not meet make what they show**, whatever their order. -/
theorem exactlyShown_allEffects (h : Apart changes) (files : Path → Option Text) :
    ExactlyShown changes files (allEffects files changes) := by
  induction changes generalizing files with
  | nil => exact ⟨nofun, fun _ _ => rfl⟩
  | cons c changes ih =>
    obtain ⟨path, change⟩ := c
    obtain ⟨hchange, hchanges, hdisjoint⟩ := List.nodup_append.mp h
    have hrest := ih hchanges (change.effect path files)
    refine ⟨?_, ?_⟩
    · rintro c hc
      rcases List.mem_cons.mp hc with rfl | hc
      · refine (ApplyPatchFileChange.shows_effect hchange files).congr fun p hp => ?_
        exact hrest.others p fun hmem => hdisjoint p hp p hmem rfl
      · exact hrest.shown c hc
    · intro p hp
      rw [touchedPaths, List.flatMap_cons, List.mem_append, not_or] at hp
      exact (hrest.others p hp.2).trans
        (ApplyPatchFileChange.effect_of_not_touched hp.1 files)

/-! ### What the verification has found -/

/-- A change is the preview of a hunk on these files. -/
def Previewed (space : PathSpace Path) (mode : ApplyPatchFileUpdateMode) (cwd : Path)
    (files : Path → Option Text) : Hunk → Path × ApplyPatchFileChange Path → Prop
  | .addFile text contents, (path, change) =>
    space.join cwd text = some path ∧ change = .add contents
  | .deleteFile text, (path, change) =>
    space.join cwd text = some path ∧
      ∃ content, files path = some content ∧ change = .delete content
  | .updateFile text movePath chunks, (path, change) =>
    space.join cwd text = some path ∧
      ∃ original new diff dest, files path = some original ∧
        newContents mode (space.native path) chunks original = .ok new ∧
        movePath.map (space.join cwd) = dest.map some ∧ change = .update diff dest new

section Verified

variable {space : PathSpace Path} {diff : Text → Text → Text} {mode : ApplyPatchFileUpdateMode}
  {cwd : Path} {w : World Path}

omit [DecidableEq Path] in
theorem wp_resolveMove (movePath : Option Text) :
    wp (resolveMove space cwd movePath) (fun r w' => w' = w ∧
      ∀ dest, r = .ok dest → movePath.map (space.join cwd) = dest.map some) w := by
  match movePath with
  | none =>
    refine ⟨rfl, ?_⟩
    rintro _ ⟨⟩
    rfl
  | some text =>
    simp only [resolveMove, resolveText, wp_bind]
    rw [wp_orElse]
    refine ⟨fun dest hdest => ⟨rfl, ?_⟩, fun _ => ⟨rfl, nofun⟩⟩
    rintro _ ⟨⟩
    rw [Option.map_some, hdest, Option.map_some]

omit [DecidableEq Path] in
theorem wp_derive (path : Path) (chunks : List UpdateFileChunk) :
    wp (deriveNewContentsFromChunks space mode path chunks) (fun r w' =>
      w'.files = w.files ∧ ∀ applied, r = .ok applied →
        w.files path = some applied.originalContents ∧
          newContents mode (space.native path) chunks applied.originalContents =
            .ok applied.newContents) w := by
  rw [deriveNewContentsFromChunks, wp_bind, wp_focus]
  refine World.wp_readFileText ?_ ?_ ?_
  · intro text htext
    simp only [Except.mapError, andThen_ok, wp_bind, wp_lift]
    cases hnew : newContents mode (space.native path) chunks text with
    | error e => exact ⟨rfl, fun _ hok => by cases hok⟩
    | ok new =>
      refine ⟨rfl, ?_⟩
      rintro _ ⟨⟩
      exact ⟨htext, hnew⟩
  · intro _
    exact ⟨rfl, fun _ hok => by cases hok⟩
  · exact ⟨rfl, fun _ hok => by cases hok⟩

omit [DecidableEq Path] in
theorem wp_previewChange (hpath : space.join cwd hunk.sourceText = some path) :
    wp (previewChange space diff mode cwd path hunk) (fun r w' => w'.files = w.files ∧
      ∀ change, r = .ok change → Previewed space mode cwd w.files hunk (path, change)) w := by
  match hunk with
  | .addFile text contents =>
    refine ⟨rfl, ?_⟩
    rintro _ ⟨⟩
    exact ⟨hpath, rfl⟩
  | .deleteFile text =>
    simp only [previewChange, wp_bind]
    rw [wp_focus]
    refine World.wp_readFileText ?_ ?_ ?_
    · intro content hcontent
      refine ⟨rfl, ?_⟩
      rintro _ ⟨⟩
      exact ⟨hpath, content, hcontent, rfl⟩
    · intro _
      exact ⟨rfl, nofun⟩
    · exact ⟨rfl, nofun⟩
  | .updateFile text movePath chunks =>
    simp only [previewChange, wp_bind]
    rw [wp_focus]
    refine wp_mono (wp_derive path chunks) ?_
    rintro (e | applied) w₁ ⟨hfiles, happlied⟩
    · exact ⟨hfiles, nofun⟩
    obtain ⟨horiginal, hnew⟩ := happlied applied rfl
    simp only [Except.mapError, andThen_ok, wp_bind]
    refine wp_mono (wp_resolveMove movePath) ?_
    rintro (e | dest) _ ⟨rfl, hdest⟩
    · exact ⟨hfiles, nofun⟩
    · refine ⟨hfiles, ?_⟩
      rintro _ ⟨⟩
      exact ⟨hpath, _, _, _, dest, horiginal, hnew, hdest dest rfl, rfl⟩

theorem wp_previewHunk (changes : List (Path × ApplyPatchFileChange Path)) (hunk : Hunk) :
    wp (previewHunk space diff mode cwd changes hunk) (fun r w' => w'.files = w.files ∧
      ∀ result, r = .ok result → ∃ c, result = changes ++ [c] ∧ c.1 ∉ changes.map (·.1) ∧
        Previewed space mode cwd w.files hunk c) w := by
  simp only [previewHunk, resolveText, wp_bind]
  rw [wp_orElse]
  refine ⟨fun path hpath => ?_, fun _ => ⟨rfl, nofun⟩⟩
  rw [andThen_ok, wp_bind, wp_ensure]
  refine ⟨fun hnew => ?_, fun _ => ⟨rfl, nofun⟩⟩
  rw [andThen_ok, wp_bind]
  refine wp_mono (wp_previewChange hpath) ?_
  rintro (e | change) w₁ ⟨hfiles, hchange⟩
  · exact ⟨hfiles, nofun⟩
  · refine ⟨hfiles, ?_⟩
    rintro _ ⟨⟩
    exact ⟨(path, change), rfl, of_decide_eq_true hnew, hchange change rfl⟩

theorem wp_previewHunks (hunks : List Hunk) (changes : List (Path × ApplyPatchFileChange Path))
    (hpaths : (changes.map (·.1)).Nodup) :
    wp (previewHunks space diff mode cwd hunks changes) (fun r _ =>
      ∀ result, r = .ok result → (result.map (·.1)).Nodup ∧ ∃ more, result = changes ++ more ∧
        List.Forall₂ (Previewed space mode cwd w.files) hunks more) w := by
  induction hunks generalizing changes w with
  | nil =>
    rintro _ ⟨⟩
    exact ⟨hpaths, [], (List.append_nil changes).symm, .nil⟩
  | cons hunk hunks ih =>
    rw [previewHunks, wp_bind]
    refine wp_mono (wp_previewHunk changes hunk) ?_
    rintro (e | next) w₁ ⟨hfiles, hnext⟩
    · exact nofun
    obtain ⟨c, rfl, hnew, hc⟩ := hnext next rfl
    rw [andThen_ok]
    have hpaths' : ((changes ++ [c]).map (·.1)).Nodup := by
      rw [List.map_append, List.map_singleton]
      exact List.nodup_append.mpr ⟨hpaths, List.nodup_singleton _, fun p hp q hq heq =>
        hnew (List.mem_singleton.mp hq ▸ heq ▸ hp)⟩
    refine wp_mono (ih (changes ++ [c]) hpaths') ?_
    rintro r _ hmore result hr
    obtain ⟨hnodup, more, rfl, hpreviewed⟩ := hmore result hr
    rw [hfiles] at hpreviewed
    exact ⟨hnodup, c :: more, by simp, .cons hc hpreviewed⟩

omit [DecidableEq Path] in
theorem effectiveCwd_world (space : PathSpace Path) (cwd : Path) (workdir : Option Text)
    (w : World Path) : (effectiveCwd space cwd workdir w).2 = w := by
  cases workdir <;> rfl

/-- **A verified patch has the preview of each of its hunks**, at different paths. -/
theorem previewed_of_verified {args : ApplyPatchArgs} {action : ApplyPatchAction Path}
    {w' : World Path} (h : tryVerifyApplyPatchArgs space diff args cwd mode w = (.ok action, w')) :
    (action.changes.map (·.1)).Nodup ∧
      List.Forall₂ (Previewed space mode action.cwd w.files) args.hunks action.changes := by
  obtain ⟨effective, w₁, hcwd, h⟩ := bind_eq_ok h
  obtain ⟨changes, w₂, hchanges, h⟩ := bind_eq_ok h
  cases h
  have hsame : w = w₁ := (effectiveCwd_world space cwd args.workdir w).symm.trans
    (congrArg Prod.snd hcwd)
  subst hsame
  obtain ⟨hpaths, more, rfl, hmore⟩ :=
    of_wp (wp_previewHunks args.hunks [] List.nodup_nil) hchanges changes rfl
  exact ⟨hpaths, hmore⟩

end Verified

/-! ### Application without failures -/

namespace World

/-- No fault is to come. -/
def Calm (w : World Path) : Prop := w.faults = []

omit [DecidableEq Path] in
theorem Calm.fault (h : w.Calm) : w.fault = none := by
  rw [World.fault, h]
  rfl

omit [DecidableEq Path] in
theorem Calm.rest (h : w.Calm) : w.rest = w := by
  rw [World.rest, h, List.tail_nil, ← h]

/-- Every file is in a directory that is there. -/
def Grounded (space : PathSpace Path) (w : World Path) : Prop :=
  ∀ path, (w.files path).isSome → (space.parent path).any w.missing = false

end World

/-- A step without failures: no fault is to come, the files are these, and no directory
has gone. -/
structure Calmly (s : Session Path) (files : Path → Option Text) (s' : Session Path) : Prop where
  calm : s'.world.Calm
  files : s'.world.files = files
  missing : ∀ d, s'.world.missing d = true → s.world.missing d = true

section Calm

variable {space : PathSpace Path} {mode : ApplyPatchFileUpdateMode} {cwd : Path}
  {s : Session Path} {path : Path} {files : Path → Option Text} {text : Text} {context : String}
  {contents : Text}

omit [DecidableEq Path] in
theorem Calmly.refl (h : s.world.Calm) : Calmly s s.world.files s := ⟨h, rfl, fun _ => id⟩

omit [DecidableEq Path] in
theorem Calmly.trans {s₁ s₂ s₃ : Session Path} {files₂ files₃ : Path → Option Text}
    (h : Calmly s₁ files₂ s₂) (h' : Calmly s₂ files₃ s₃) : Calmly s₁ files₃ s₃ :=
  ⟨h'.calm, h'.files, fun d hd => h.missing d (h'.missing d hd)⟩

omit [DecidableEq Path] in
theorem Calmly.parent {s' : Session Path} (h : Calmly s files s')
    (hparent : (space.parent path).any s.world.missing = false) :
    (space.parent path).any s'.world.missing = false := by
  match space.parent path, hparent with
  | none, _ => rfl
  | some parent, hparent =>
    rw [Option.any_some] at hparent ⊢
    rw [← Bool.not_eq_true] at hparent ⊢
    exact fun hmissing => hparent (h.missing parent hmissing)

omit [DecidableEq Path] in
theorem calm_note (h : s.world.Calm) :
    wp (noteExistingPathDeltaSupport path)
      (fun r s' => r = .ok () ∧ Calmly s s.world.files s') s := by
  simp only [noteExistingPathDeltaSupport, wp_bind, wp_tryOnWorld]
  unfold wp World.getMetadata
  rw [h.fault, h.rest]
  cases hfile : s.world.files path with
  | some | none => exact ⟨rfl, .refl h⟩

omit [DecidableEq Path] in
theorem calm_readOptional (h : s.world.Calm) :
    wp (readOptionalFileTextForDelta path)
      (fun r s' => ∃ text, r = .ok text ∧ Calmly s s.world.files s') s := by
  simp only [readOptionalFileTextForDelta, wp_bind]
  refine wp_mono (calm_note h) ?_
  rintro _ s₁ ⟨rfl, h₁⟩
  rw [andThen_ok, wp_bind, wp_tryOnWorld]
  unfold wp World.readFileText
  rw [h₁.calm.fault, h₁.calm.rest]
  cases hfile : s₁.world.files path with
  | some text => exact ⟨some text, rfl, h₁⟩
  | none => exact ⟨none, rfl, h₁⟩

omit [DecidableEq Path] in
theorem calm_readForDelete (h : s.world.Calm) (hfile : s.world.files path = some text) :
    wp (readForDelete path)
      (fun r s' => ∃ text, r = .ok text ∧ Calmly s s.world.files s') s := by
  simp only [readForDelete, wp_bind, wp_tryOnWorld]
  unfold wp World.readFileText
  rw [h.fault, h.rest, hfile]
  exact ⟨some text, rfl, .refl h⟩

omit [DecidableEq Path] in
theorem calm_ensureNotDirectory (h : s.world.Calm) (hfile : s.world.files path = some text) :
    wp (ensureNotDirectory context path)
      (fun r s' => r = .ok () ∧ Calmly s s.world.files s') s := by
  simp only [ensureNotDirectory, wp_bind, wp_onWorld]
  unfold wp World.getMetadata
  rw [h.fault, h.rest, hfile]
  exact ⟨rfl, .refl h⟩

omit [DecidableEq Path] in
theorem calm_derive (h : s.world.Calm) {chunks : List UpdateFileChunk} {original new : Text}
    (hfile : s.world.files path = some original)
    (hnew : newContents mode (space.native path) chunks original = .ok new) :
    wp (focus (·.world) (fun w s => { s with world := w }) id
        (deriveNewContentsFromChunks space mode path chunks) :
          Action (Session Path) (ApplyError Path) AppliedPatch)
      (fun r s' => r = .ok ⟨original, new⟩ ∧ Calmly s s.world.files s') s := by
  rw [wp_focus, deriveNewContentsFromChunks, wp_bind, wp_focus]
  unfold wp World.readFileText
  rw [id, h.fault, h.rest, hfile]
  simp only [Except.mapError, andThen_ok, wp_bind, wp_lift, hnew]
  exact ⟨rfl, .refl h⟩

theorem calm_write (h : s.world.Calm) (hparent : (space.parent path).any s.world.missing = false) :
    wp (onWorld context path (World.writeFile space path contents))
      (fun r s' => r = .ok () ∧
        Calmly s (Function.update s.world.files path (some contents)) s') s := by
  rw [wp_onWorld]
  unfold wp World.writeFile
  rw [h.fault, hparent, h.rest]
  exact ⟨rfl, h, rfl, fun _ => id⟩

theorem calm_writeRetry (h : s.world.Calm) :
    wp (writeFileWithMissingParentRetry space path contents)
      (fun r s' => r = .ok () ∧
        Calmly s (Function.update s.world.files path (some contents)) s') s := by
  simp only [writeFileWithMissingParentRetry, wp_bind, wp_tryOnWorld]
  unfold wp World.writeFile
  rw [h.fault, h.rest]
  cases hparent : (space.parent path).any s.world.missing with
  | false => exact ⟨rfl, h, rfl, fun _ => id⟩
  | true =>
    simp only [if_true, andThen_ok]
    obtain ⟨parent, hsome, -⟩ := Option.any_eq_true _ _ |>.mp hparent
    simp only [retryWrite, wp_bind, createParent, hsome, wp_onWorld]
    unfold wp World.createDirectory
    rw [h.fault, h.rest]
    simp only [Except.mapError, andThen_ok]
    -- The directory is there now, so that the second attempt returns.
    have hthere : (space.parent path).any
        (fun d => s.world.missing d && !space.needs parent d) = false := by
      rw [hsome, Option.any_some, space.needs_self]
      simp
    refine wp_mono
      (calm_write (s := ⟨⟨s.world.files, _, s.world.faults⟩, s.delta⟩) (by exact h) hthere) ?_
    rintro _ s' ⟨rfl, hcalm, hfiles, hmissing'⟩
    exact ⟨rfl, hcalm, hfiles, fun d hd => (Bool.and_eq_true_iff.mp (hmissing' d hd)).1⟩

omit [DecidableEq Path] in
theorem calm_tryWrite {x : Action (Session Path) (ApplyError Path) Unit}
    (hx : wp x (fun r s' => r = .ok () ∧ Calmly s files s') s) :
    wp (tryWrite x) (fun r s' => r = .ok () ∧ Calmly s files s') s := by
  simp only [tryWrite, wp_bind, Action.wp_attempt]
  refine wp_mono hx ?_
  rintro _ s' ⟨rfl, h⟩
  exact ⟨rfl, h⟩

theorem calm_remove (h : s.world.Calm) {expected : Option Text}
    (hfile : s.world.files path = some text) :
    wp (removeForDelta context path expected)
      (fun r s' => r = .ok () ∧ Calmly s (Function.update s.world.files path none) s') s := by
  simp only [removeForDelta, wp_bind, wp_tryOnWorld]
  unfold wp World.remove
  rw [h.fault, hfile, h.rest]
  exact ⟨rfl, h, rfl, fun _ => id⟩

/-! ### Hunks without failures -/

theorem calm_applyAdd (h : s.world.Calm) (contents : Text) :
    wp (applyAdd space path contents) (fun r s' => r = .ok () ∧
      Calmly s (Function.update s.world.files path (some contents)) s') s := by
  simp only [applyAdd, wp_bind]
  refine wp_mono (calm_readOptional h) ?_
  rintro _ s₁ ⟨overwritten, rfl, h₁⟩
  rw [andThen_ok, wp_bind]
  refine wp_mono (calm_tryWrite (calm_writeRetry h₁.calm)) ?_
  rintro _ s₂ ⟨rfl, h₂⟩
  rw [h₁.files] at h₂
  exact ⟨rfl, (h₁.trans h₂).calm, h₂.files, (h₁.trans h₂).missing⟩

theorem calm_applyDelete (h : s.world.Calm) (hfile : s.world.files path = some text) :
    wp (applyDelete path) (fun r s' => r = .ok () ∧
      Calmly s (Function.update s.world.files path none) s') s := by
  simp only [applyDelete, wp_bind]
  refine wp_mono (calm_note h) ?_
  rintro _ s₁ ⟨rfl, h₁⟩
  rw [andThen_ok, wp_bind]
  refine wp_mono (calm_readForDelete h₁.calm (h₁.files ▸ hfile)) ?_
  rintro _ s₂ ⟨content, rfl, h₂⟩
  rw [andThen_ok, wp_bind]
  rw [h₁.files] at h₂
  refine wp_mono (calm_ensureNotDirectory h₂.calm (h₂.files ▸ hfile)) ?_
  rintro _ s₃ ⟨rfl, h₃⟩
  rw [andThen_ok, wp_bind]
  rw [h₂.files] at h₃
  refine wp_mono (calm_remove h₃.calm (h₃.files ▸ hfile)) ?_
  rintro _ s₄ ⟨rfl, h₄⟩
  rw [h₃.files] at h₄
  have hall := ((h₁.trans h₂).trans h₃).trans h₄
  cases content with
  | none => exact ⟨rfl, hall⟩
  | some content => exact ⟨rfl, hall.calm, hall.files, hall.missing⟩

theorem calm_applyInPlace (h : s.world.Calm) (applied : AppliedPatch)
    (hparent : (space.parent path).any s.world.missing = false) :
    wp (applyInPlace space path applied) (fun r s' => r = .ok () ∧
      Calmly s (Function.update s.world.files path (some applied.newContents)) s') s := by
  simp only [applyInPlace, wp_bind]
  refine wp_mono (calm_tryWrite (calm_write h hparent)) ?_
  rintro _ s₁ ⟨rfl, h₁⟩
  exact ⟨rfl, h₁.calm, h₁.files, h₁.missing⟩

theorem calm_applyMove (h : s.world.Calm) (applied : AppliedPatch) {dest : Path}
    (hfile : s.world.files path = some text) (hne : path ≠ dest) :
    wp (applyMove space path dest applied) (fun r s' => r = .ok () ∧
      Calmly s (Function.update (Function.update s.world.files dest (some applied.newContents))
        path none) s') s := by
  simp only [applyMove, wp_bind]
  refine wp_mono (calm_readOptional h) ?_
  rintro _ s₁ ⟨overwritten, rfl, h₁⟩
  rw [andThen_ok, wp_bind]
  refine wp_mono (calm_tryWrite (calm_writeRetry h₁.calm)) ?_
  rintro _ s₂ ⟨rfl, h₂⟩
  rw [h₁.files] at h₂
  rw [andThen_ok, wp_bind, pushChange, Action.wp_modify, andThen_ok, wp_bind]
  -- The file is still there, because the destination is another one.
  have hstill : s₂.world.files path = some text := by
    rw [h₂.files, update_of_ne hne, hfile]
  refine wp_mono (calm_ensureNotDirectory (s := ⟨s₂.world, _⟩) (by exact h₂.calm) hstill) ?_
  rintro _ s₃ ⟨rfl, h₃⟩
  rw [andThen_ok, wp_bind]
  refine wp_mono (calm_remove h₃.calm (h₃.files ▸ hstill)) ?_
  rintro _ s₄ ⟨rfl, h₄⟩
  rw [h₃.files, h₂.files] at h₄
  exact ⟨rfl, h₄.calm, h₄.files, fun d hd =>
    h₁.missing d (h₂.missing d (h₃.missing d (h₄.missing d hd)))⟩

/-- **A hunk makes the change of its preview**, if its file is as it was when the patch was
verified. -/
theorem calm_applyHunk (h : s.world.Calm)
    (hpreviewed : Previewed space mode cwd files hunk (path, change))
    (htouched : (change.touched path).Nodup) (hfile : s.world.files path = files path)
    (hparent : (s.world.files path).isSome → (space.parent path).any s.world.missing = false) :
    wp (applyHunk space mode cwd hunk) (fun r s' => r = .ok () ∧
      Calmly s (change.effect path s.world.files) s') s := by
  have hjoin : space.join cwd hunk.sourceText = some path := by
    cases hunk with
    | addFile | deleteFile | updateFile => exact hpreviewed.1
  simp only [applyHunk, resolve, hjoin, wp_bind]
  rw [wp_orElse]
  refine ⟨?_, fun hnone => by cases hnone⟩
  rintro _ ⟨⟩
  rw [andThen_ok]
  cases hunk with
  | addFile text contents =>
    obtain ⟨_, hchange⟩ := hpreviewed
    rw [hchange]
    exact calm_applyAdd h contents
  | deleteFile text =>
    obtain ⟨_, content, hcontent, hchange⟩ := hpreviewed
    rw [hchange]
    exact calm_applyDelete h (hfile.trans hcontent)
  | updateFile text movePath chunks =>
    obtain ⟨_, original, new, diff, dest, horiginal, hnew, hmove, hchange⟩ := hpreviewed
    have hthere := hfile.trans horiginal
    simp only [applyHunkAt, applyUpdate, wp_bind]
    refine wp_mono (calm_note h) ?_
    rintro _ s₁ ⟨rfl, h₁⟩
    rw [andThen_ok, wp_bind]
    refine wp_mono (calm_derive h₁.calm (h₁.files ▸ hthere) hnew) ?_
    rintro _ s₂ ⟨rfl, h₂⟩
    rw [andThen_ok]
    rw [h₁.files] at h₂
    have h₁₂ := h₁.trans h₂
    rcases movePath with _ | destText <;> rcases dest with _ | dest <;> try cases hmove
    · have hparent₂ := h₁₂.parent (hparent (Option.isSome_of_eq_some hthere))
      refine wp_mono (calm_applyInPlace h₂.calm ⟨original, new⟩ hparent₂) ?_
      rintro _ s₃ ⟨rfl, h₃⟩
      rw [h₂.files] at h₃
      rw [hchange]
      exact ⟨rfl, h₁₂.trans h₃⟩
    · have hdest : space.join cwd destText = some dest := Option.some.inj hmove
      have hne : path ≠ dest := by
        rw [hchange] at htouched
        simpa [ApplyPatchFileChange.touched, ApplyPatchFileChange.dest] using htouched
      simp only [applyTo, resolve, hdest, wp_bind]
      rw [wp_orElse]
      refine ⟨?_, fun hnone => by cases hnone⟩
      rintro _ ⟨⟩
      rw [andThen_ok]
      refine wp_mono
        (calm_applyMove h₂.calm ⟨original, new⟩ (h₂.files ▸ hthere) hne) ?_
      rintro _ s₃ ⟨rfl, h₃⟩
      rw [h₂.files] at h₃
      rw [hchange]
      exact ⟨rfl, h₁₂.trans h₃⟩

/-- **Hunks make the changes of their previews**, if these are apart. -/
theorem calm_applyHunks {hunks : List Hunk}
    (hpreviewed : List.Forall₂ (Previewed space mode cwd files) hunks changes)
    (hapart : Apart changes) (h : s.world.Calm)
    (hfiles : ∀ c ∈ changes, s.world.files c.1 = files c.1)
    (hparents : ∀ c ∈ changes, (files c.1).isSome → (space.parent c.1).any s.world.missing = false)
    (affected : AffectedPaths) :
    wp (applyHunks space mode cwd hunks affected) (fun r s' => (∃ a, r = .ok a) ∧
      s'.world.files = allEffects s.world.files changes) s := by
  induction hpreviewed generalizing s affected with
  | nil => exact ⟨⟨affected, rfl⟩, rfl⟩
  | @cons hunk c hunks changes hhunk _ ih =>
    obtain ⟨path, change⟩ := c
    obtain ⟨hchange, hchanges, hdisjoint⟩ := List.nodup_append.mp hapart
    have hfile := hfiles (path, change) List.mem_cons_self
    have hparent := hparents (path, change) List.mem_cons_self
    rw [applyHunks, wp_bind]
    refine wp_mono (calm_applyHunk h hhunk hchange hfile (hfile ▸ hparent)) ?_
    rintro _ s₁ ⟨rfl, h₁⟩
    rw [andThen_ok]
    -- The files of the hunks that remain are as they were verified.
    have hfiles₁ : ∀ c ∈ changes, s₁.world.files c.1 = files c.1 := by
      intro c hc
      have hnot : c.1 ∉ change.touched path := fun hmem =>
        hdisjoint c.1 hmem c.1 (List.mem_flatMap.mpr ⟨c, hc, List.mem_cons_self⟩) rfl
      rw [h₁.files, ApplyPatchFileChange.effect_of_not_touched hnot]
      exact hfiles c (List.mem_cons_of_mem _ hc)
    refine wp_mono (ih hchanges h₁.calm hfiles₁ (fun c hc hsome =>
      h₁.parent (hparents c (List.mem_cons_of_mem _ hc) hsome)) (affected.note hunk)) ?_
    rintro r s₂ ⟨hr, hfiles₂⟩
    exact ⟨hr, hfiles₂.trans (by rw [h₁.files]; rfl)⟩

end Calm

/-! ### The preview is the effect -/

/-- **A patch that was verified does what was shown.** For every patch with at least one
hunk whose moves do not end at a path of the patch, every working directory and all
files: if the verification returns an action, then the hunks are applied to the same
files without an error, and every change of the action is made, and no other. -/
theorem preview_is_the_effect (space : PathSpace Path) (diff : Text → Text → Text)
    (mode : ApplyPatchFileUpdateMode) (args : ApplyPatchArgs) (cwd : Path) (w w' : World Path)
    (action : ApplyPatchAction Path) (hgrounded : w.Grounded space)
    (hverified : tryVerifyApplyPatchArgs space diff args cwd mode w = (.ok action, w'))
    (hhunks : args.hunks ≠ []) (hunaliased : Unaliased action.changes) :
    ∃ affected s, applyHunksWithDelta space mode action.cwd args.hunks { w with faults := [] } =
        (.ok affected, s) ∧
      ExactlyShown action.changes w.files s.world.files := by
  obtain ⟨hpaths, hpreviewed⟩ := previewed_of_verified hverified
  have hapart := apart_of_unaliased hpaths hunaliased
  have hrun := calm_applyHunks (s := ⟨{ w with faults := [] }, ⟨[], true⟩⟩) hpreviewed hapart rfl
    (fun _ _ => rfl) (fun c _ => hgrounded c.1) ⟨[], [], []⟩
  have hensure : wp (applyHunksToFiles space mode action.cwd args.hunks)
      (fun r s' => (∃ a, r = .ok a) ∧ s'.world.files = allEffects w.files action.changes)
      ⟨{ w with faults := [] }, ⟨[], true⟩⟩ := by
    simp only [applyHunksToFiles, wp_bind]
    rw [wp_ensure]
    refine ⟨fun _ => hrun, fun hempty => absurd ?_ hhunks⟩
    rw [Bool.not_eq_false', List.isEmpty_iff] at hempty
    exact hempty
  obtain ⟨⟨affected, hok⟩, hfiles⟩ := hensure
  refine ⟨affected, _, Prod.ext hok rfl, ?_⟩
  exact hfiles ▸ exactlyShown_allEffects hapart w.files

/-- Moves the file `a` to `b` with a new line, deletes `c` and adds `d`. -/
def threeHunks : ApplyPatchArgs where
  patch := []
  hunks := [.updateFile "a".toList (some "b".toList) [replaceX], .deleteFile "c".toList,
    .addFile "d".toList "z\n".toList]
  workdir := none
  environmentId := none

/-- The changes that are shown for these hunks, with the new text for the diff. -/
def threeChanges : List (Text × ApplyPatchFileChange Text) :=
  [("a".toList, .update "y\n".toList (some "b".toList) "y\n".toList),
    ("c".toList, .delete "w\n".toList), ("d".toList, .add "z\n".toList)]

theorem preview_is_the_effect_three_hunks :
    let w := calmWorld [("a".toList, "x\n".toList), ("c".toList, "w\n".toList)]
    w.Grounded plainPaths ∧ Unaliased threeChanges ∧
      ∃ affected s, applyHunksWithDelta plainPaths .normalizeToLf [] threeHunks.hunks w =
          (.ok affected, s) ∧
        ExactlyShown threeChanges w.files s.world.files := by
  intro w
  have hgrounded : w.Grounded plainPaths := fun _ _ => rfl
  have hunaliased : Unaliased threeChanges := by decide
  have hverified : (tryVerifyApplyPatchArgs plainPaths (fun _ new => new) threeHunks []
      .normalizeToLf w).1 = .ok ⟨threeChanges, .normalizeToLf, [], []⟩ := by decide +kernel
  exact ⟨hgrounded, hunaliased, preview_is_the_effect plainPaths (fun _ new => new) .normalizeToLf
    threeHunks [] w _ ⟨threeChanges, .normalizeToLf, [], []⟩ hgrounded (Prod.ext hverified rfl)
    (by decide) hunaliased⟩

/-- A patch without hunks. -/
def emptyPatch : Text := "*** Begin Patch\n*** End Patch".toList

/-- A patch that moves `a` to `b` and then updates `b`, and its hunks. -/
def aliasingPatch : Text :=
  ("*** Begin Patch\n*** Update File: a\n*** Move to: b\n@@\n+x\n" ++
    "*** Update File: b\n@@\n+y\n*** End Patch").toList

@[inherit_doc aliasingPatch]
def aliasingHunks : List Hunk :=
  [.updateFile "a".toList (some "b".toList) [⟨none, [], ["x".toList], [], false⟩],
    .updateFile "b".toList none [⟨none, [], ["y".toList], [], false⟩]]

/-- **What is verified need not be applied, and need not be what was shown.** A patch
without hunks is verified and then refused. A patch that moves `a` to `b` and updates
`b` is verified on the first `b` and applied to the file that was moved there: neither
of the contents shown for `b` is the one that it ends with. -/
theorem verified_but_not_applied_as_shown :
    let w := calmWorld [("a".toList, "a\n".toList), ("b".toList, "b\n".toList)]
    let verify := fun args =>
      (tryVerifyApplyPatchArgs plainPaths (fun _ new => new) args [] .normalizeToLf w).1
    let apply := fun hunks => applyHunksWithDelta plainPaths .normalizeToLf [] hunks w
    let empty : ApplyPatchArgs := ⟨emptyPatch, [], none, none⟩
    let aliasing : ApplyPatchArgs := ⟨aliasingPatch, aliasingHunks, none, none⟩
    (parsePatch emptyPatch = .ok empty ∧
      verify empty = .ok ⟨[], .normalizeToLf, emptyPatch, []⟩ ∧
      (apply []).1 = .error .noFilesModified) ∧
    parsePatch aliasingPatch = .ok aliasing ∧
      verify aliasing = .ok ⟨[("a".toList, .update "a\nx\n".toList (some "b".toList)
          "a\nx\n".toList), ("b".toList, .update "b\ny\n".toList none "b\ny\n".toList)],
        .normalizeToLf, aliasingPatch, []⟩ ∧
      (apply aliasingHunks).1.toBool = true ∧
      (apply aliasingHunks).2.world.files "b".toList = some "a\nx\ny\n".toList := by
  decide +kernel

end Rivloom.ApplyPatch
