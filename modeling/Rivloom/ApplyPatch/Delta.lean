import Rivloom.Lib.ChangeLog
import Rivloom.ApplyPatch.Apply

/-!
# What a delta tells

The delta of an application lists the changes that were made, and its flag promises
that there were no others. This file proves what the promise is worth: if the flag
is set, then making the changes again leads from the first files to the last, and
taking them back leads from the last to the first
(`Rivloom.ApplyPatch.exact_delta_tells`), whatever operation failed and however.

The changes of a delta are made again as the tracker of a turn makes them: an update
with a destination removes the file and then writes the destination. The application
does the two in the other order, and where the destination is the file itself the
difference shows – the file is written and then removed, so that it is gone, while the
change tells that it holds the new contents
(`Rivloom.ApplyPatch.move_onto_itself_is_lost`). Every other move is told rightly.

The proof says once what each operation of the application can do to the files and to
the flag, by `Rivloom.ApplyPatch.Effect`: *if the delta is still exact*, the files have
changed in the given way, and the entries not at all. What an operation does when the
delta is no longer exact need not be known.
-/

namespace Rivloom.ApplyPatch

open Rivloom.Action (andThen_ok focus wp wp_bind wp_ensure wp_focus wp_mono wp_orElse)
open Function (update update_comm update_eq_self update_idem)

variable {Path : Type} {Q : Except ErrorKind Unit → World Path → Prop} {path : Path}
  {w : World Path} {files : Path → Option Text} {space : PathSpace Path} {s s' : Session Path}
  {s₁ s₂ s₃ : Session Path} {α : Type}

/-! ### Operations that only look -/

/-- **The effect of an operation**: no change is entered, and if the delta is exact
behind it, it was so before and the files are these. -/
structure Effect (s : Session Path) (files : Path → Option Text) (s' : Session Path) : Prop where
  changes : s'.delta.changes = s.delta.changes
  exact : s'.delta.exact = true → s.delta.exact = true ∧ s'.world.files = files

/-- An operation without an effect. -/
abbrev Kept (s s' : Session Path) : Prop := Effect s s.world.files s'

theorem Effect.after_kept {f : (Path → Option Text) → Path → Option Text} (h : Kept s₁ s₂)
    (h' : Effect s₂ (f s₂.world.files) s₃) : Effect s₁ (f s₁.world.files) s₃ := by
  refine ⟨h'.changes.trans h.changes, fun hexact => ?_⟩
  obtain ⟨hexact₂, hfiles₃⟩ := h'.exact hexact
  obtain ⟨hexact₁, hfiles₂⟩ := h.exact hexact₂
  exact ⟨hexact₁, by rw [hfiles₃, hfiles₂]⟩

theorem Kept.trans (h : Kept s₁ s₂) (h' : Kept s₂ s₃) : Kept s₁ s₃ :=
  Effect.after_kept (f := id) h h'

theorem Effect.of_inexact (hchanges : s'.delta.changes = s.delta.changes)
    (h : s'.delta.exact = false) : Effect s files s' :=
  ⟨hchanges, fun hexact => absurd (h.symm.trans hexact) Bool.false_ne_true⟩

namespace World

/-- Reading a file: the text that is there, or that there is none, or another error. -/
theorem wp_readFileText {Q : Except ErrorKind Text → World Path → Prop}
    (hok : ∀ text, w.files path = some text → Q (.ok text) w.rest)
    (hnone : w.files path = none → Q (.error .notFound) w.rest) (hother : Q (.error .other) w.rest)
    : wp (readFileText path) Q w := by
  unfold wp readFileText
  match hfault : w.fault, hfile : w.files path with
  | some fault, some text => simpa [kindOf, hfile] using hother
  | some ⟨.notFound, _, _⟩, none => simpa [kindOf, hfile] using hnone hfile
  | some ⟨.other, _, _⟩, none => simpa [kindOf, hfile] using hother
  | none, some text => exact hok text hfile
  | none, none => exact hnone hfile

theorem wp_getMetadata {Q : Except ErrorKind Metadata → World Path → Prop} (h : ∀ r, Q r w.rest) :
    wp (getMetadata path) Q w := by
  unfold wp getMetadata
  split
  · exact h _
  · exact h _
  · exact h _

theorem wp_createDirectory {directory : Path} (h : ∀ r w', w'.files = w.files → Q r w') :
    wp (createDirectory space directory) Q w := by
  unfold wp createDirectory
  split
  · exact h _ _ rfl
  · exact h _ _ rfl

end World

theorem wp_tryOnWorld (x : Action (World Path) ErrorKind α)
    (Q : Except (ApplyError Path) (Except ErrorKind α) → Session Path → Prop) (s : Session Path) :
    wp (tryOnWorld x) Q s ↔
      wp x (fun r w => Q (.ok r) { s with world := w }) s.world := Iff.rfl

theorem wp_onWorld (context : String) (path : Path) (x : Action (World Path) ErrorKind α)
    (Q : Except (ApplyError Path) α → Session Path → Prop) (s : Session Path) :
    wp (onWorld context path x) Q s ↔
      wp x (fun r w => Q (r.mapError (.io context path)) { s with world := w }) s.world :=
  Iff.rfl

theorem wp_noteExistingPathDeltaSupport (path : Path) (s : Session Path) :
    wp (noteExistingPathDeltaSupport path) (fun r s' => r = .ok () ∧ Kept s s') s := by
  simp only [noteExistingPathDeltaSupport, wp_bind, wp_tryOnWorld]
  refine World.wp_getMetadata fun r => ?_
  rw [andThen_ok]
  unfold noteMetadata
  split
  · split
    · exact ⟨rfl, rfl, fun h => ⟨h, rfl⟩⟩
    · exact ⟨rfl, .of_inexact rfl rfl⟩
  · exact ⟨rfl, rfl, fun h => ⟨h, rfl⟩⟩
  · exact ⟨rfl, .of_inexact rfl rfl⟩

/-- What is read for the delta is what is there, or the delta is no longer exact. -/
theorem wp_readOptionalFileTextForDelta (path : Path) (s : Session Path) :
    wp (readOptionalFileTextForDelta path) (fun r s' => ∃ overwritten, r = .ok overwritten ∧
      Kept s s' ∧ (s'.delta.exact = true → overwritten = s.world.files path)) s := by
  simp only [readOptionalFileTextForDelta, wp_bind]
  refine wp_mono (wp_noteExistingPathDeltaSupport path s) ?_
  rintro _ s₁ ⟨rfl, hkept⟩
  rw [andThen_ok, wp_bind, wp_tryOnWorld]
  have hrest : Kept s { s₁ with world := s₁.world.rest } := hkept.trans ⟨rfl, fun h => ⟨h, rfl⟩⟩
  refine World.wp_readFileText ?_ ?_ ?_
  · intro text htext
    refine ⟨some text, rfl, hrest, fun hexact => ?_⟩
    rw [← (hkept.exact hexact).2, htext]
  · intro hnone
    refine ⟨none, rfl, hrest, fun hexact => ?_⟩
    rw [← (hkept.exact hexact).2, hnone]
  · exact ⟨none, rfl, .of_inexact hkept.changes rfl, nofun⟩

theorem wp_readForDelete (path : Path) (s : Session Path) :
    wp (readForDelete path) (fun r s' => ∃ content, r = .ok content ∧ Kept s s' ∧
      (s'.delta.exact = true → content.isSome ∧ content = s.world.files path)) s := by
  simp only [readForDelete, wp_bind, wp_tryOnWorld]
  refine World.wp_readFileText ?_ ?_ ?_
  · intro text htext
    exact ⟨some text, rfl, ⟨rfl, fun h => ⟨h, rfl⟩⟩, fun _ => ⟨rfl, htext.symm⟩⟩
  · intro _
    exact ⟨none, rfl, .of_inexact rfl rfl, nofun⟩
  · exact ⟨none, rfl, .of_inexact rfl rfl, nofun⟩

theorem wp_ensureNotDirectory (context : String) (path : Path) (s : Session Path) :
    wp (ensureNotDirectory context path) (fun _ s' => Kept s s') s := by
  simp only [ensureNotDirectory, wp_bind, wp_onWorld]
  refine World.wp_getMetadata fun r => ?_
  have hkept : Kept s { s with world := s.world.rest } := ⟨rfl, fun h => ⟨h, rfl⟩⟩
  match r with
  | .ok metadata =>
    simp only [Except.mapError, andThen_ok, wp_ensure]
    exact ⟨fun _ => hkept, fun _ => hkept⟩
  | .error kind => exact hkept

section Files

variable [DecidableEq Path] {contents : Text}

/-! ### Operations that change files -/

namespace World

theorem wp_writeFile
    (hok : ∀ w', w'.files = update w.files path (some contents) → Q (.ok ()) w')
    (herror : ∀ kind left w', w'.files = update w.files path left → Q (.error kind) w') :
    wp (writeFile space path contents) Q w := by
  unfold wp writeFile
  split
  · exact herror _ _ _ rfl
  · split
    · exact herror _ (w.files path) _ (update_eq_self path w.files).symm
    · exact hok _ rfl

/-- Removing a file: it is gone, or the removal failed and it may be gone. -/
theorem wp_remove (hok : ∀ w', w'.files = update w.files path none → Q (.ok ()) w')
    (herror : ∀ kind w', w'.files = w.files ∨ w'.files = update w.files path none →
      Q (.error kind) w') : wp (remove path) Q w := by
  unfold wp remove
  split
  · split
    · exact herror _ _ (.inr rfl)
    · exact herror _ _ (.inl rfl)
  · exact hok _ rfl
  · exact herror _ _ (.inl rfl)

end World

/-- What an operation leads to: its effect if it returns, and none if it fails. -/
def Leads {α : Type} (s : Session Path) (files : Path → Option Text) :
    Except (ApplyError Path) α → Session Path → Prop
  | .ok _, s' => Effect s files s'
  | .error _, s' => Kept s s'

/-- A write with a second attempt: the file holds the contents, or the write failed. -/
theorem wp_writeFileWithMissingParentRetry {Q : Except (ApplyError Path) Unit → Session Path → Prop}
    (hok : ∀ w, w.files = update s.world.files path (some contents) →
      Q (.ok ()) { s with world := w }) (herror : ∀ e w, Q (.error e) { s with world := w }) :
    wp (writeFileWithMissingParentRetry space path contents) Q s := by
  have hsecond : ∀ (left : Option Text) (w : World Path),
      w.files = update s.world.files path left →
      wp (onWorld "Failed to write file" path (World.writeFile space path contents)) Q
        { s with world := w } := by
    intro left w hfiles
    rw [wp_onWorld]
    refine World.wp_writeFile ?_ ?_
    · intro w' hfiles'
      exact hok w' (by rw [hfiles', hfiles, update_idem])
    · intro kind _ w' _
      exact herror _ w'
  simp only [writeFileWithMissingParentRetry, wp_bind, wp_tryOnWorld]
  refine World.wp_writeFile hok ?_
  intro kind left w hfiles
  match kind with
  | .other => exact herror _ w
  | .notFound =>
    change wp (retryWrite space path contents) Q _
    simp only [retryWrite, wp_bind, createParent]
    split
    · rw [wp_onWorld]
      refine World.wp_createDirectory ?_
      rintro (kind | _) w' hfiles'
      · exact herror _ w'
      · exact hsecond left w' (hfiles'.trans hfiles)
    · exact hsecond left w hfiles

theorem wp_tryWrite {x : Action (Session Path) (ApplyError Path) Unit}
    (h : ∀ Q : Except (ApplyError Path) Unit → Session Path → Prop,
      (∀ w, w.files = update s.world.files path (some contents) →
        Q (.ok ()) { s with world := w }) →
      (∀ e w, Q (.error e) { s with world := w }) → wp x Q s) :
    wp (tryWrite x)
      (Leads s (update s.world.files path (some contents))) s := by
  simp only [tryWrite, wp_bind, Action.wp_attempt]
  refine h _ ?_ ?_
  · intro w hfiles
    exact ⟨rfl, fun hexact => ⟨hexact, hfiles⟩⟩
  · intro e w
    exact .of_inexact rfl rfl

/-- A removal: if it failed and the delta is still exact, then the file has been found to
hold what it held. -/
theorem wp_removeForDelta {context : String} {expected : Option Text} :
    wp (removeForDelta context path expected)
      (Leads s (update s.world.files path none)) s := by
  simp only [removeForDelta, wp_bind, wp_tryOnWorld]
  refine World.wp_remove ?_ ?_
  · intro w hfiles
    exact ⟨rfl, fun hexact => ⟨hexact, hfiles⟩⟩
  · intro kind w hfiles
    rw [andThen_ok]
    simp only [wp_bind]
    match expected with
    | none => exact .of_inexact rfl (Bool.and_false _)
    | some text =>
      simp only [removeFailureWasSideEffectFree, wp_bind, wp_tryOnWorld]
      refine World.wp_readFileText ?_ ?_ ?_
      · intro found hfound
        -- A file that is still there has not been removed.
        have hkept : w.files = s.world.files := by
          rcases hfiles with hfiles | hfiles
          · exact hfiles
          · rw [hfiles, Function.update_self] at hfound
            cases hfound
        exact ⟨rfl, fun hexact => ⟨(Bool.and_eq_true_iff.mp hexact).1, hkept⟩⟩
      · intro _
        exact .of_inexact rfl (Bool.and_false _)
      · exact .of_inexact rfl (Bool.and_false _)

/-! ### Changes of files -/

theorem update_back {held other : Option Text} (h : files path = held) :
    update (update files path other) path held = files := by
  rw [update_idem, ← h, update_eq_self]

/-- Makes a change again. -/
def replayChange (c : AppliedPatchChange Path) (files : Path → Option Text) : Path → Option Text :=
  match c.change with
  | .add content _ => update files c.path (some content)
  | .delete _ => update files c.path none
  | .update none _ _ newContent => update files c.path (some newContent)
  | .update (some dest) _ _ newContent =>
    update (update files c.path none) dest (some newContent)

/-- Takes a change back. -/
def undoChange (c : AppliedPatchChange Path) (files : Path → Option Text) : Path → Option Text :=
  match c.change with
  | .add _ overwritten => update files c.path overwritten
  | .delete content => update files c.path (some content)
  | .update none oldContent _ _ => update files c.path (some oldContent)
  | .update (some dest) oldContent overwritten _ =>
    update (update files dest overwritten) c.path (some oldContent)

/-- The changes of files. -/
def fileChanges : ChangeLog (Path → Option Text) (AppliedPatchChange Path) :=
  ⟨replayChange, undoChange⟩

/-- An exact delta tells the way from the first files. -/
def Faithful (start : Path → Option Text) (s : Session Path) : Prop :=
  s.delta.exact = true → fileChanges.Tells start s.delta.changes s.world.files

theorem Faithful.of_kept {start : Path → Option Text} (h : Faithful start s) (hkept : Kept s s') :
    Faithful start s' := by
  intro hexact
  obtain ⟨hexact', hfiles⟩ := hkept.exact hexact
  rw [hkept.changes, hfiles]
  exact h hexact'

theorem Faithful.enter {start files : Path → Option Text} {c : AppliedPatchChange Path}
    (h : Faithful start s) (heffect : Effect s files s')
    (hchange : s'.delta.exact = true →
      replayChange c s.world.files = files ∧ undoChange c files = s.world.files) :
    Faithful start
      { s' with delta := { s'.delta with changes := s'.delta.changes ++ [c] } } := by
  intro hexact
  obtain ⟨hexact', hfiles⟩ := heffect.exact hexact
  obtain ⟨hreplay, hundo⟩ := hchange hexact
  rw [heffect.changes, hfiles]
  exact (h hexact').concat hreplay hundo

/-! ### Hunks -/

variable {start : Path → Option Text} {s : Session Path}

theorem wp_applyAdd (space : PathSpace Path) (path : Path) (contents : Text)
    (h : Faithful start s) :
    wp (applyAdd space path contents) (fun _ s' => Faithful start s') s := by
  simp only [applyAdd, wp_bind]
  refine wp_mono (wp_readOptionalFileTextForDelta path s) ?_
  rintro _ s₁ ⟨overwritten, rfl, hkept, hoverwritten⟩
  rw [andThen_ok, wp_bind]
  have h₁ := h.of_kept hkept
  refine wp_mono
    (wp_tryWrite fun Q hok herror => wp_writeFileWithMissingParentRetry hok herror) ?_
  rintro (e | _) s₂ hwrite
  · exact h₁.of_kept hwrite
  · refine h₁.enter hwrite fun hexact => ⟨rfl, ?_⟩
    have hexact₁ := (hwrite.exact hexact).1
    refine update_back ?_
    rw [hoverwritten hexact₁, (hkept.exact hexact₁).2]

theorem wp_applyDelete (path : Path) (h : Faithful start s) :
    wp (applyDelete path) (fun _ s' => Faithful start s') s := by
  simp only [applyDelete, wp_bind]
  refine wp_mono (wp_noteExistingPathDeltaSupport path s) ?_
  rintro _ s₁ ⟨rfl, hnoted⟩
  rw [andThen_ok, wp_bind]
  refine wp_mono (wp_readForDelete path s₁) ?_
  rintro _ s₂ ⟨content, rfl, hread, hcontent⟩
  rw [andThen_ok, wp_bind]
  have h₂ := (h.of_kept hnoted).of_kept hread
  refine wp_mono (wp_ensureNotDirectory "Failed to delete file" path s₂) ?_
  rintro (e | _) s₃ hensured
  · exact h₂.of_kept hensured
  have h₃ := h₂.of_kept hensured
  rw [andThen_ok, wp_bind]
  refine wp_mono wp_removeForDelta ?_
  rintro (e | _) s₄ hremoved
  · exact h₃.of_kept hremoved
  rw [andThen_ok]
  match content with
  | none =>
    -- A deletion that cannot be entered is not exact.
    intro hexact
    have hexact₂ := (hensured.exact (hremoved.exact hexact).1).1
    exact absurd (hcontent hexact₂).1 Bool.false_ne_true
  | some text =>
    refine h₃.enter hremoved fun hexact => ⟨rfl, ?_⟩
    obtain ⟨hexact₂, hfiles₃⟩ := hensured.exact (hremoved.exact hexact).1
    refine update_back ?_
    rw [hfiles₃, (hread.exact hexact₂).2, (hcontent hexact₂).2]

omit [DecidableEq Path] in
theorem wp_deriveNewContentsFromChunks (space : PathSpace Path) (mode : ApplyPatchFileUpdateMode)
    (path : Path) (chunks : List UpdateFileChunk) (s : Session Path) :
    wp (focus (·.world) (fun w s => { s with world := w }) id
        (deriveNewContentsFromChunks space mode path chunks) :
          Action (Session Path) (ApplyError Path) AppliedPatch)
      (fun r s' => Kept s s' ∧
        ∀ applied, r = .ok applied → s.world.files path = some applied.originalContents) s := by
  have hkept : Kept s { s with world := s.world.rest } := ⟨rfl, fun h => ⟨h, rfl⟩⟩
  rw [wp_focus, deriveNewContentsFromChunks, wp_bind, wp_focus]
  refine World.wp_readFileText ?_ ?_ ?_
  · intro text htext
    simp only [Except.mapError, andThen_ok, wp_bind, Action.wp_lift]
    split
    · exact ⟨hkept, nofun⟩
    · refine ⟨hkept, ?_⟩
      rintro _ ⟨⟩
      exact htext
  · intro _
    exact ⟨hkept, nofun⟩
  · exact ⟨hkept, nofun⟩

theorem wp_applyInPlace (space : PathSpace Path) (path : Path) (applied : AppliedPatch)
    (h : Faithful start s) (hfile : s.delta.exact = true →
      s.world.files path = some applied.originalContents) :
    wp (applyInPlace space path applied) (fun _ s' => Faithful start s') s := by
  simp only [applyInPlace, wp_bind]
  have hwritten : wp (tryWrite (onWorld "Failed to write file" path
      (World.writeFile space path applied.newContents)))
      (Leads s (update s.world.files path (some applied.newContents))) s :=
    wp_tryWrite fun Q hok herror => (wp_onWorld _ _ _ _ _).mpr
      (World.wp_writeFile hok fun kind _ w _ => herror _ w)
  refine wp_mono hwritten ?_
  rintro (e | _) s₁ hwrite
  · exact h.of_kept hwrite
  · exact h.enter hwrite fun hexact => ⟨rfl, update_back (hfile (hwrite.exact hexact).1)⟩

theorem move_told {path dest : Path} {old : Text} (hne : path ≠ dest)
    (hpath : files path = some old) (new : Text) :
    let c : AppliedPatchChange Path := ⟨path, .update (some dest) old (files dest) new⟩
    let moved := update (update files dest (some new)) path none
    replayChange c files = moved ∧ undoChange c moved = files := by
  intro c moved
  constructor
  · exact update_comm hne none (some new) files
  · have hdest : update moved dest (files dest) = update files path none := by
      rw [show moved = update (update files dest (some new)) path none from rfl,
        update_comm hne, update_back rfl]
    change update (update moved dest (files dest)) path (some old) = files
    rw [hdest, update_back hpath]

theorem wp_applyMove (space : PathSpace Path) {path dest : Path} (applied : AppliedPatch)
    (hne : path ≠ dest) (h : Faithful start s) (hfile : s.delta.exact = true →
      s.world.files path = some applied.originalContents) :
    wp (applyMove space path dest applied) (fun _ s' => Faithful start s') s := by
  simp only [applyMove, wp_bind]
  refine wp_mono (wp_readOptionalFileTextForDelta dest s) ?_
  rintro _ s₁ ⟨overwritten, rfl, hkept, hoverwritten⟩
  rw [andThen_ok, wp_bind]
  have h₁ := h.of_kept hkept
  refine wp_mono
    (wp_tryWrite fun Q hok herror => wp_writeFileWithMissingParentRetry hok herror) ?_
  rintro (e | _) s₂ hwrite
  · exact h₁.of_kept hwrite
  rw [andThen_ok, wp_bind, pushChange, Action.wp_modify, andThen_ok, wp_bind]
  -- Until the file is removed, the entry tells of the destination alone.
  have h₂ : Faithful start { s₂ with delta := { s₂.delta with changes := s₂.delta.changes ++
      [⟨dest, .add applied.newContents overwritten⟩] } } := by
    refine h₁.enter hwrite fun hexact => ⟨rfl, update_back ?_⟩
    have hexact₁ := (hwrite.exact hexact).1
    rw [hoverwritten hexact₁, (hkept.exact hexact₁).2]
  refine wp_mono (wp_ensureNotDirectory "Failed to remove original" path _) ?_
  rintro (e | _) s₃ hensured
  · exact h₂.of_kept hensured
  rw [andThen_ok, wp_bind]
  refine wp_mono wp_removeForDelta ?_
  rintro (e | _) s₄ hremoved
  · exact (h₂.of_kept hensured).of_kept hremoved
  · intro hexact
    obtain ⟨hexact₃, hfiles₄⟩ := hremoved.exact hexact
    obtain ⟨hexact₂, hfiles₃⟩ := hensured.exact hexact₃
    obtain ⟨hexact₁, hfiles₂⟩ := hwrite.exact hexact₂
    obtain ⟨hexact₀, hfiles₁⟩ := hkept.exact hexact₁
    obtain ⟨hreplay, hundo⟩ := move_told hne (hfile hexact₀) applied.newContents
    have hchanges : s₄.delta.changes = s.delta.changes ++
        [⟨dest, .add applied.newContents overwritten⟩] := by
      rw [hremoved.changes, hensured.changes, hwrite.changes, hkept.changes]
    have hfiles : s₄.world.files = update
        (update s.world.files dest (some applied.newContents)) path none := by
      rw [hfiles₄, hfiles₃, hfiles₂, hfiles₁]
    change fileChanges.Tells start (s₄.delta.changes.dropLast ++ [_]) s₄.world.files
    rw [hchanges, List.dropLast_concat, hfiles, hoverwritten hexact₁]
    exact (h hexact₀).concat hreplay hundo

/-- A move of a file onto itself. -/
def Hunk.MovesOntoItself (space : PathSpace Path) (cwd : Path) : Hunk → Prop
  | .updateFile path (some dest) _ =>
    (space.join cwd path).isSome ∧ space.join cwd path = space.join cwd dest
  | _ => False

/-- **A hunk is told as it was applied**, whether it was applied in whole, in part or not
at all. -/
theorem wp_applyHunk (space : PathSpace Path) (mode : ApplyPatchFileUpdateMode) (cwd : Path)
    {hunk : Hunk} (hmove : ¬ hunk.MovesOntoItself space cwd) (h : Faithful start s) :
    wp (applyHunk space mode cwd hunk) (fun _ s' => Faithful start s') s := by
  simp only [applyHunk, resolve, wp_bind]
  rw [wp_orElse]
  refine ⟨?_, fun _ => h⟩
  intro path hpath
  rw [andThen_ok]
  match hunk with
  | .addFile text contents => exact wp_applyAdd space path contents h
  | .deleteFile text => exact wp_applyDelete path h
  | .updateFile text movePath chunks =>
    simp only [applyHunkAt, applyUpdate, wp_bind]
    refine wp_mono (wp_noteExistingPathDeltaSupport path s) ?_
    rintro _ s₁ ⟨rfl, hnoted⟩
    rw [andThen_ok, wp_bind]
    refine wp_mono (wp_deriveNewContentsFromChunks space mode path chunks s₁) ?_
    rintro (e | applied) s₂ ⟨hderived, hfile⟩
    · exact (h.of_kept hnoted).of_kept hderived
    rw [andThen_ok]
    have h₂ := (h.of_kept hnoted).of_kept hderived
    have hfile₂ : s₂.delta.exact = true → s₂.world.files path = some applied.originalContents := by
      intro hexact
      rw [(hderived.exact hexact).2]
      exact hfile applied rfl
    match movePath with
    | none => exact wp_applyInPlace space path applied h₂ hfile₂
    | some destText =>
      simp only [applyTo, resolve, wp_bind]
      rw [wp_orElse]
      refine ⟨?_, fun _ => h₂⟩
      intro dest hdest
      refine wp_applyMove space applied ?_ h₂ hfile₂
      rintro rfl
      exact hmove ⟨Option.isSome_of_eq_some hpath, hpath.trans hdest.symm⟩

theorem wp_applyHunks (space : PathSpace Path) (mode : ApplyPatchFileUpdateMode) (cwd : Path)
    {hunks : List Hunk} (hmoves : ∀ hunk ∈ hunks, ¬ hunk.MovesOntoItself space cwd)
    (affected : AffectedPaths) (h : Faithful start s) :
    wp (applyHunks space mode cwd hunks affected) (fun _ s' => Faithful start s') s := by
  induction hunks generalizing affected s with
  | nil => exact h
  | cons hunk rest ih =>
    rw [applyHunks, wp_bind]
    refine wp_mono (wp_applyHunk space mode cwd (hmoves hunk List.mem_cons_self) h) ?_
    rintro (e | _) s₁ h₁
    · exact h₁
    · exact ih (fun x hx => hmoves x (List.mem_cons_of_mem hunk hx)) (affected.note hunk) h₁

/-- **An exact delta tells the whole story.** For every list of hunks without a move of a
file onto itself, every file system and every choice of which operations fail and what
they leave: if the delta that is returned, with the success or the failure, is exact,
then making its changes again leads from the first files to the last, and taking them
back in reverse order leads from the last files to the first. -/
theorem exact_delta_tells (space : PathSpace Path) (mode : ApplyPatchFileUpdateMode) (cwd : Path)
    (hunks : List Hunk) (hmoves : ∀ hunk ∈ hunks, ¬ hunk.MovesOntoItself space cwd)
    (w : World Path) :
    let outcome := (applyHunksWithDelta space mode cwd hunks w).2
    outcome.delta.exact = true →
      fileChanges.replayAll outcome.delta.changes w.files = outcome.world.files ∧
        fileChanges.undoAll outcome.delta.changes outcome.world.files = w.files := by
  have hstart : Faithful w.files (⟨w, ⟨[], true⟩⟩ : Session Path) := fun _ => .nil w.files
  have hrun : wp (applyHunksToFiles space mode cwd hunks)
      (fun _ s' => Faithful w.files s') ⟨w, ⟨[], true⟩⟩ := by
    simp only [applyHunksToFiles, wp_bind]
    rw [wp_ensure]
    exact ⟨fun _ => wp_applyHunks space mode cwd hmoves _ hstart, fun _ => hstart⟩
  intro outcome hexact
  have htells : fileChanges.Tells w.files outcome.delta.changes outcome.world.files := hrun hexact
  exact ⟨htells.replay, htells.undo⟩

end Files

/-! ### Two runs -/

/-- Paths that are the texts of the patch. -/
def plainPaths : PathSpace Text where
  join _ text := some text
  parent _ := none
  needs _ _ := true
  needs_self _ := rfl
  native := id

/-- A file system with these files that does not fail. -/
def calmWorld (files : List (Text × Text)) : World Text where
  files path := (files.find? (·.1 = path)).map (·.2)
  missing _ := false
  faults := []

/-- Replaces the line `x` by the line `y`. -/
def replaceX : UpdateFileChunk := ⟨none, ["x".toList], ["y".toList], [], false⟩

theorem exact_delta_tells_move :
    let outcome := (applyHunksWithDelta plainPaths .normalizeToLf [] [.updateFile "a".toList
      (some "b".toList) [replaceX]] (calmWorld [("a".toList, "x\n".toList)])).2
    outcome.delta.exact = true ∧
      fileChanges.replayAll outcome.delta.changes
        (calmWorld [("a".toList, "x\n".toList)]).files = outcome.world.files ∧
      fileChanges.undoAll outcome.delta.changes outcome.world.files =
        (calmWorld [("a".toList, "x\n".toList)]).files := by
  intro outcome
  have hexact : outcome.delta.exact = true := by decide +kernel
  refine ⟨hexact, exact_delta_tells plainPaths .normalizeToLf [] _ ?_ _ hexact⟩
  simp only [List.forall_mem_singleton, Hunk.MovesOntoItself]
  rintro ⟨-, hsame⟩
  exact absurd hsame (by decide)

/-- **A file that is moved onto itself is lost, and the delta does not tell**: the file is
written with its new contents and then removed, no operation fails, and the exact delta
has one change, which tells that the file holds the new contents. -/
theorem move_onto_itself_is_lost :
    let outcome := applyHunksWithDelta plainPaths .normalizeToLf [] [.updateFile "a".toList
      (some "a".toList) [replaceX]] (calmWorld [("a".toList, "x\n".toList)])
    outcome.1.toBool = true ∧ outcome.2.delta.exact = true ∧
      outcome.2.world.files "a".toList = none ∧
      fileChanges.replayAll outcome.2.delta.changes
        (calmWorld [("a".toList, "x\n".toList)]).files "a".toList = some "y\n".toList := by
  decide +kernel

end Rivloom.ApplyPatch
