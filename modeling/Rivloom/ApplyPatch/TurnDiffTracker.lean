import Mathlib.Data.Char
import Mathlib.Data.List.AList
import Mathlib.Data.List.Lex
import Rivloom.Lib.StrMap
import Rivloom.ApplyPatch.Apply

/-!
# The diff of a turn

During a turn every patch that is applied hands its delta to a tracker,
`Rivloom.ApplyPatch.TurnDiffTracker`, which tells the net change of the whole turn without looking
at the files again. It keeps the baseline of each path, captured when the path is first touched,
what the path holds now, and for a path that a file was moved to the path that the file comes from.
From these the tracker pairs old paths with new ones and renders a diff for each pair
(`Rivloom.ApplyPatch.TurnDiffTracker.refreshUnifiedDiff`), and what it has rendered it keeps for the
next time, by the revisions of the contents.

The maps of the source are hash maps, which give their entries in any order, and in another one each
time: the order is a parameter of every refresh (`Rivloom.ApplyPatch.Iteration`).
-/

namespace Rivloom.ApplyPatch

/-- **The order in which hash maps give their entries**, which may be any. -/
structure Iteration where
  order : {α : Type} → List α → List α
  perm : ∀ {α : Type} (l : List α), (order l).Perm l

/-- `TrackedContent`. -/
structure TrackedContent where
  content : Text
  revision : ℕ
  deriving Repr, DecidableEq

/-- `TrackedPath`. -/
@[ext] structure TrackedPath (Path : Type) where
  environmentId : String
  path : Path
  deriving Repr, DecidableEq

/-- `DiffCacheKey`. -/
structure DiffCacheKey (Path : Type) where
  leftPath : TrackedPath Path
  leftRevision : Option ℕ
  rightPath : TrackedPath Path
  rightRevision : Option ℕ
  deriving Repr, DecidableEq

/-- What the tracker uses of other libraries: the texts of paths, the id of a blob and the unified
diff of two texts under two headers. -/
structure DiffTools (Path : Type) where
  relativePathFrom : Path → Path → Option Text
  inferredNativePathString : Path → Text
  gitBlobOid : Text → Text
  unifiedDiff : (oldHeader newHeader left right : Text) → Text

/-- A change in an environment. -/
def AppliedPatchChange.inEnvironment {Path : Type} (environmentId : String)
    (c : AppliedPatchChange Path) : AppliedPatchChange (TrackedPath Path) where
  path := ⟨environmentId, c.path⟩
  change :=
    match c.change with
    | .add content overwrittenContent => .add content overwrittenContent
    | .delete content => .delete content
    | .update movePath oldContent overwrittenMoveContent newContent =>
      .update (movePath.map (⟨environmentId, ·⟩)) oldContent overwrittenMoveContent newContent

/-- `TurnDiffTracker`. -/
structure TurnDiffTracker (Path : Type) where
  valid : Bool
  displayRootsByEnvironment : StrMap Path
  baselineByPath : AList fun _ : TrackedPath Path => TrackedContent
  currentByPath : AList fun _ : TrackedPath Path => TrackedContent
  /-- The path that the file at a path was moved from. -/
  originByCurrentPath : AList fun _ : TrackedPath Path => TrackedPath Path
  nextRevision : ℕ
  renderedDiffs : AList fun _ : DiffCacheKey Path => Option Text
  unifiedDiff : Option Text

namespace TurnDiffTracker

variable {Path : Type}

/-- `with_environment_display_roots`. -/
def withEnvironmentDisplayRoots (displayRoots : StrMap Path) : TurnDiffTracker Path where
  valid := true
  displayRootsByEnvironment := displayRoots
  baselineByPath := ∅
  currentByPath := ∅
  originByCurrentPath := ∅
  nextRevision := 0
  renderedDiffs := ∅
  unifiedDiff := none

/-- `invalidate`. -/
def invalidate (t : TurnDiffTracker Path) : TurnDiffTracker Path :=
  { t with valid := false, renderedDiffs := ∅, unifiedDiff := none }

/-! ### Rendering -/

section Rendering

variable (tools : DiffTools Path)

/-- `display_path`. -/
def displayPath (roots : StrMap Path) (path : TrackedPath Path) : Text :=
  let display := ((roots[path.environmentId]?).bind (tools.relativePathFrom path.path)).getD
    (tools.inferredNativePathString path.path)
  if 1 < roots.size ∧ path.environmentId ≠ "" then
    path.environmentId.toList ++ '/' :: display
  else display

def zeroOid : Text := List.replicate 40 '0'
def devNull : Text := "/dev/null".toList
def regularFileMode : Text := "100644".toList

/-- A path with slashes. -/
def slashes (display : Text) : Text := display.map fun c => if c = '\\' then '/' else c

/-- `render_diff`. -/
def renderDiff (roots : StrMap Path) (leftPath : TrackedPath Path) (leftContent : Option Text)
    (rightPath : TrackedPath Path) (rightContent : Option Text) : Option Text :=
  if leftContent = rightContent then none
  else
    let leftDisplay := slashes (displayPath tools roots leftPath)
    let rightDisplay := slashes (displayPath tools roots rightPath)
    let leftOid := leftContent.elim zeroOid tools.gitBlobOid
    let rightOid := rightContent.elim zeroOid tools.gitBlobOid
    let header := "diff --git a/".toList ++ leftDisplay ++ " b/".toList ++ rightDisplay ++ ['\n']
    let mode : Option Text :=
      match leftContent, rightContent with
      | none, some _ => some ("new file mode ".toList ++ regularFileMode ++ ['\n'])
      | some _, none => some ("deleted file mode ".toList ++ regularFileMode ++ ['\n'])
      | some _, some _ => some []
      | none, none => none
    mode.map fun mode =>
      let index := "index ".toList ++ leftOid ++ "..".toList ++ rightOid ++ ['\n']
      let oldHeader := if leftContent.isSome then "a/".toList ++ leftDisplay else devNull
      let newHeader := if rightContent.isSome then "b/".toList ++ rightDisplay else devNull
      header ++ mode ++ index ++
        tools.unifiedDiff oldHeader newHeader (leftContent.getD []) (rightContent.getD [])

theorem isSome_renderDiff {roots : StrMap Path} {leftPath rightPath : TrackedPath Path}
    {leftContent rightContent : Option Text} :
    (renderDiff tools roots leftPath leftContent rightPath rightContent).isSome = true ↔
      leftContent ≠ rightContent := by
  rw [renderDiff.eq_def]
  split
  · next hsame => exact ⟨nofun, fun hne => absurd hsame hne⟩
  · next hne =>
    refine ⟨fun _ => hne, fun _ => ?_⟩
    match leftContent, rightContent, hne with
    | none, some _, _ => rfl
    | some _, none, _ => rfl
    | some _, some _, _ => rfl

end Rendering

variable [DecidableEq Path]

/-- What a path held when it was first touched. -/
def baseline (t : TurnDiffTracker Path) (path : TrackedPath Path) : Option Text :=
  (t.baselineByPath.lookup path).map (·.content)

/-- What a path holds now. -/
def current (t : TurnDiffTracker Path) (path : TrackedPath Path) : Option Text :=
  (t.currentByPath.lookup path).map (·.content)

/-! ### Changes -/

/-- `tracked_content`, as a baseline. -/
def insertBaseline (t : TurnDiffTracker Path) (path : TrackedPath Path) (content : Text) :
    TurnDiffTracker Path :=
  { t with
    baselineByPath := t.baselineByPath.insert path ⟨content, t.nextRevision⟩
    nextRevision := t.nextRevision + 1 }

/-- `tracked_content`, as the present. -/
def insertCurrent (t : TurnDiffTracker Path) (path : TrackedPath Path) (content : Text) :
    TurnDiffTracker Path :=
  { t with
    currentByPath := t.currentByPath.insert path ⟨content, t.nextRevision⟩
    nextRevision := t.nextRevision + 1 }

def removeCurrent (t : TurnDiffTracker Path) (path : TrackedPath Path) : TurnDiffTracker Path :=
  { t with currentByPath := t.currentByPath.erase path }

def removeOrigin (t : TurnDiffTracker Path) (path : TrackedPath Path) : TurnDiffTracker Path :=
  { t with originByCurrentPath := t.originByCurrentPath.erase path }

/-- The contents that a path held, if there were any, become the baseline of a path that is not
followed yet. -/
def captureBaseline (t : TurnDiffTracker Path) (path : TrackedPath Path) (held : Option Text) :
    TurnDiffTracker Path :=
  if (t.currentByPath.lookup path).isNone ∧ (t.baselineByPath.lookup path).isNone then
    held.elim t (t.insertBaseline path)
  else t

/-- `apply_add`. -/
def applyAdd (t : TurnDiffTracker Path) (path : TrackedPath Path) (content : Text)
    (overwrittenContent : Option Text) : TurnDiffTracker Path :=
  ((t.removeOrigin path).captureBaseline path overwrittenContent).insertCurrent path content

/-- `apply_delete`. -/
def applyDelete (t : TurnDiffTracker Path) (path : TrackedPath Path) (content : Text) :
    TurnDiffTracker Path :=
  let removed := t.removeCurrent path
  let captured :=
    if (t.currentByPath.lookup path).isNone ∧ (t.baselineByPath.lookup path).isNone then
      removed.insertBaseline path content
    else removed
  captured.removeOrigin path

/-- Notes where the file at a path comes from, if not from there. -/
def setOrigin (t : TurnDiffTracker Path) (path origin : TrackedPath Path) : TurnDiffTracker Path :=
  if path ≠ origin then
    { t with originByCurrentPath := t.originByCurrentPath.insert path origin }
  else t

/-- The part of `apply_update` about a destination. -/
def applyMove (t : TurnDiffTracker Path) (sourcePath destPath : TrackedPath Path)
    (overwrittenMoveContent : Option Text) (newContent : Text) : TurnDiffTracker Path :=
  let captured := t.captureBaseline destPath overwrittenMoveContent
  let origin := (captured.originByCurrentPath.lookup sourcePath).getD sourcePath
  let moved :=
    ((captured.removeOrigin sourcePath).removeCurrent sourcePath).insertCurrent destPath newContent
  (moved.removeOrigin destPath).setOrigin destPath origin

/-- `apply_update`. -/
def applyUpdate (t : TurnDiffTracker Path) (sourcePath : TrackedPath Path)
    (movePath : Option (TrackedPath Path)) (oldContent : Text)
    (overwrittenMoveContent : Option Text)
    (newContent : Text) : TurnDiffTracker Path :=
  let t := t.captureBaseline sourcePath (some oldContent)
  match movePath with
  | some destPath => t.applyMove sourcePath destPath overwrittenMoveContent newContent
  | none => t.insertCurrent sourcePath newContent

/-- `apply_change`. -/
def applyChange (environmentId : String) (t : TurnDiffTracker Path)
    (change : AppliedPatchChange Path) : TurnDiffTracker Path :=
  match change.change with
  | .add content overwrittenContent => t.applyAdd ⟨environmentId, change.path⟩ content
    overwrittenContent
  | .delete content => t.applyDelete ⟨environmentId, change.path⟩ content
  | .update movePath oldContent overwrittenMoveContent newContent =>
    t.applyUpdate ⟨environmentId, change.path⟩ (movePath.map (⟨environmentId, ·⟩)) oldContent
      overwrittenMoveContent newContent

/-! ### Pairs of paths -/

/-- The entries of `rename_pairs`, which takes an origin to its destination. -/
def renameEntries (t : TurnDiffTracker Path) (iteration : Iteration) :
    List (TrackedPath Path × TrackedPath Path) :=
  (iteration.order t.originByCurrentPath.entries).filterMap fun entry =>
    if entry.1 = entry.2 ∨ (t.currentByPath.lookup entry.2).isSome ∨
        ¬ (t.currentByPath.lookup entry.1).isSome ∨ ¬ (t.baselineByPath.lookup entry.2).isSome ∨
        (t.baselineByPath.lookup entry.1).isSome then none
    else some (entry.2, entry.1)

/-- `rename_pairs`: of two destinations of one origin the later one stays. -/
def renamePairs (t : TurnDiffTracker Path) (iteration : Iteration) :
    AList fun _ : TrackedPath Path => TrackedPath Path :=
  (t.renameEntries iteration).foldl (fun pairs entry => pairs.insert entry.1 entry.2) ∅

/-- `dedup`: of equal neighbours one stays. -/
def dedupAdjacent {α : Type} [DecidableEq α] : List α → List α
  | a :: b :: rest =>
    if a = b then dedupAdjacent (b :: rest) else a :: dedupAdjacent (b :: rest)
  | l => l

/-- The paths of a refresh, in the order in which they are shown. -/
def sortedPaths (tools : DiffTools Path) (t : TurnDiffTracker Path) (iteration : Iteration) :
    List (TrackedPath Path) :=
  let display := displayPath tools t.displayRootsByEnvironment
  dedupAdjacent ((iteration.order t.baselineByPath.keys ++
    iteration.order t.currentByPath.keys).mergeSort fun a b => decide (display a ≤ display b))

/-! ### The refresh -/

/-- Where a refresh is. -/
structure RefreshState (Path : Type) where
  handled : List (TrackedPath Path)
  previousDiffs : AList fun _ : DiffCacheKey Path => Option Text
  renderedDiffs : AList fun _ : DiffCacheKey Path => Option Text
  aggregated : Text

/-- The key of a pair of paths. -/
def cacheKey (t : TurnDiffTracker Path) (leftPath rightPath : TrackedPath Path) :
    DiffCacheKey Path where
  leftPath := leftPath
  leftRevision := (t.baselineByPath.lookup leftPath).map (·.revision)
  rightPath := rightPath
  rightRevision := (t.currentByPath.lookup rightPath).map (·.revision)

/-- The diff of a pair of paths, rendered anew. -/
def freshDiff (tools : DiffTools Path) (t : TurnDiffTracker Path)
    (leftPath rightPath : TrackedPath Path) : Option Text :=
  renderDiff tools t.displayRootsByEnvironment leftPath (t.baseline leftPath) rightPath
    (t.current rightPath)

/-- A diff behind the others; it ends with a line feed. -/
def pushDiff (aggregated : Text) : Option Text → Text
  | none => aggregated
  | some diff =>
    if (aggregated ++ diff).getLast? = some '\n' then aggregated ++ diff
    else aggregated ++ diff ++ ['\n']

/-- The part of `refresh_unified_diff` about a pair of paths. -/
def refreshPair (tools : DiffTools Path) (t : TurnDiffTracker Path)
    (leftPath rightPath : TrackedPath Path) (s : RefreshState Path) : RefreshState Path :=
  let key := t.cacheKey leftPath rightPath
  let rendered := (s.previousDiffs.lookup key).getD (t.freshDiff tools leftPath rightPath)
  { s with
    previousDiffs := s.previousDiffs.erase key
    renderedDiffs := s.renderedDiffs.insert key rendered
    aggregated := pushDiff s.aggregated rendered }

/-- The part of `refresh_unified_diff` about a path. -/
def refreshPath (tools : DiffTools Path) (t : TurnDiffTracker Path)
    (renamePairs : AList fun _ : TrackedPath Path => TrackedPath Path) (s : RefreshState Path)
    (path : TrackedPath Path) : RefreshState Path :=
  if path ∈ s.handled then s
  else
    let s := { s with handled := path :: s.handled }
    if path ∈ renamePairs.entries.map (·.2) then s
    else
      match renamePairs.lookup path with
      | some dest => t.refreshPair tools path dest { s with handled := dest :: s.handled }
      | none => t.refreshPair tools path path s

/-- `refresh_unified_diff`. -/
def refreshUnifiedDiff (tools : DiffTools Path) (t : TurnDiffTracker Path) (iteration : Iteration) :
    TurnDiffTracker Path :=
  let s := (t.sortedPaths tools iteration).foldl (t.refreshPath tools (t.renamePairs iteration))
    ⟨[], t.renderedDiffs, ∅, []⟩
  { t with
    renderedDiffs := s.renderedDiffs
    unifiedDiff := if s.aggregated = [] then none else some s.aggregated }

/-- `track_delta`. -/
def trackDelta (tools : DiffTools Path) (iteration : Iteration) (environmentId : String)
    (t : TurnDiffTracker Path) (delta : AppliedPatchDelta Path) : TurnDiffTracker Path :=
  if t.valid = false then t
  else if delta.exact = false then t.invalidate
  else (delta.changes.foldl (applyChange environmentId) t).refreshUnifiedDiff tools iteration

end TurnDiffTracker

end Rivloom.ApplyPatch
