import Rivloom.Lib.NetChange
import Rivloom.ApplyPatch.Delta
import Rivloom.ApplyPatch.TurnDiffTracker

/-!
# The diff of a turn is the net change

The tracker of a turn sees the deltas of the turn and nothing else, and still its diff is that of
the files at the end against the files at the beginning
(`Rivloom.ApplyPatch.TurnDiffTracker.turn_diff_is_net_change`) – if every delta is exact and records
the contents that were there.

Two things make it so. The baseline and the present are kept as `Rivloom.NetChange.Tracks` demands
(`Rivloom.ApplyPatch.TurnDiffTracker.Follows`), whatever is moved, overwritten, deleted and created
again; and a revision is given out once, so that a diff that is kept under two revisions is the diff
of two texts (`Rivloom.ApplyPatch.TurnDiffTracker.Versions`). A refresh then goes through the paths
that are followed, and the invariant of its loop says what has been shown of those it has visited
(`Rivloom.ApplyPatch.TurnDiffTracker.Shows`).
-/

namespace Rivloom.ApplyPatch

namespace TurnDiffTracker

variable {Path : Type} [DecidableEq Path]
  {contents : AList fun _ : TrackedPath Path => TrackedContent}
  {diffs : AList fun _ : DiffCacheKey Path => Option Text} {path : TrackedPath Path}
  {nextRevision : ℕ} {o d : TrackedPath Path} {iteration : Iteration} {environmentId : String}
  {α : Type}

/-! ### The baseline and the present -/

section Contents

variable (t : TurnDiffTracker Path) (path : TrackedPath Path) (content : Text)
  (origin : TrackedPath Path) (dest : TrackedPath Path) (held : Option Text)

theorem map_lookup_insert (contents : AList fun _ : TrackedPath Path => TrackedContent)
    (revision : ℕ) :
    (fun p => ((contents.insert path ⟨content, revision⟩).lookup p).map (·.content)) =
      Function.update (fun p => (contents.lookup p).map (·.content)) path (some content) := by
  funext p
  by_cases hp : p = path
  · subst hp
    rw [Function.update_self, AList.lookup_insert]
    rfl
  · rw [Function.update_of_ne hp, AList.lookup_insert_ne hp]

@[simp] theorem baseline_insertBaseline :
    (t.insertBaseline path content).baseline = Function.update t.baseline path (some content) :=
  map_lookup_insert ..

@[simp] theorem current_insertBaseline : (t.insertBaseline path content).current = t.current := rfl

@[simp] theorem baseline_insertCurrent : (t.insertCurrent path content).baseline = t.baseline := rfl

@[simp] theorem current_insertCurrent :
    (t.insertCurrent path content).current = Function.update t.current path (some content) :=
  map_lookup_insert ..

@[simp] theorem baseline_removeCurrent : (t.removeCurrent path).baseline = t.baseline := rfl

@[simp] theorem current_removeCurrent :
    (t.removeCurrent path).current = Function.update t.current path none := by
  funext p
  by_cases hp : p = path
  · subst hp
    rw [Function.update_self, current, removeCurrent, AList.lookup_erase]
    rfl
  · rw [Function.update_of_ne hp, current, removeCurrent, AList.lookup_erase_ne hp]
    rfl

@[simp] theorem baseline_removeOrigin : (t.removeOrigin path).baseline = t.baseline := rfl

@[simp] theorem current_removeOrigin : (t.removeOrigin path).current = t.current := rfl

theorem isNone_baseline : (t.baselineByPath.lookup path).isNone = (t.baseline path).isNone :=
  Option.isNone_map.symm

theorem isNone_current : (t.currentByPath.lookup path).isNone = (t.current path).isNone :=
  Option.isNone_map.symm

@[simp] theorem baseline_captureBaseline :
    (t.captureBaseline path held).baseline = NetChange.capture t.baseline t.current path held := by
  rw [captureBaseline, NetChange.capture, isNone_baseline, isNone_current]
  split
  · next hnone =>
    cases held with
    | none =>
      have hsame := Function.update_eq_self path t.baseline
      rw [Option.isNone_iff_eq_none.mp hnone.2] at hsame
      exact hsame.symm
    | some content => exact baseline_insertBaseline t path content
  · rfl

@[simp] theorem current_captureBaseline : (t.captureBaseline path held).current = t.current := by
  rw [captureBaseline]
  split
  · cases held with
    | none => rfl
    | some content => rfl
  · rfl

@[simp] theorem baseline_setOrigin : (t.setOrigin path origin).baseline = t.baseline := by
  rw [setOrigin]
  split
  · rfl
  · rfl

@[simp] theorem current_setOrigin : (t.setOrigin path origin).current = t.current := by
  rw [setOrigin]
  split
  · rfl
  · rfl

@[simp] theorem baseline_applyMove (overwritten : Option Text) :
    (t.applyMove path dest overwritten content).baseline =
      NetChange.capture t.baseline t.current dest overwritten := by
  simp only [applyMove, baseline_setOrigin, baseline_removeOrigin, baseline_insertCurrent,
    baseline_removeCurrent, baseline_captureBaseline]

@[simp] theorem current_applyMove (overwritten : Option Text) :
    (t.applyMove path dest overwritten content).current =
      Function.update (Function.update t.current path none) dest (some content) := by
  simp only [applyMove, current_setOrigin, current_removeOrigin, current_insertCurrent,
    current_removeCurrent, current_captureBaseline]

end Contents

/-! ### Changes that tell the truth -/

/-- **The contents that a change records are the actual ones.** -/
def Consistent (files : Path → Option Text) (c : AppliedPatchChange Path) : Prop :=
  match c.change with
  | .add _ overwrittenContent => overwrittenContent = files c.path
  | .delete content => files c.path = some content
  | .update movePath oldContent overwrittenMoveContent _ =>
    files c.path = some oldContent ∧ ∀ dest, movePath = some dest →
      overwrittenMoveContent = files dest

/-- The tracker knows the files. -/
def Follows (first now : TrackedPath Path → Option Text) (t : TurnDiffTracker Path) : Prop :=
  NetChange.Tracks first now t.baseline t.current

variable {first now : TrackedPath Path → Option Text} {t : TurnDiffTracker Path}

@[simp] theorem baseline_applyDelete (path : TrackedPath Path) (content : Text) :
    (t.applyDelete path content).baseline =
      NetChange.capture t.baseline t.current path (some content) := by
  rw [applyDelete, NetChange.capture, isNone_baseline, isNone_current]
  split
  · exact baseline_insertBaseline (t.removeCurrent path) path content
  · rfl

@[simp] theorem current_applyDelete (path : TrackedPath Path) (content : Text) :
    (t.applyDelete path content).current = Function.update t.current path none := by
  rw [applyDelete]
  split
  · exact current_removeCurrent t path
  · exact current_removeCurrent t path

/-- **One change.** -/
theorem Follows.applyChange (h : Follows first now t) {c : AppliedPatchChange Path}
    (hc : Consistent now (c.inEnvironment environmentId)) :
    Follows first (replayChange (c.inEnvironment environmentId) now)
      (t.applyChange environmentId c) := by
  obtain ⟨path, change⟩ := c
  cases change with
  | add content overwritten =>
    obtain rfl : overwritten = now ⟨environmentId, path⟩ := hc
    have hwrite := NetChange.Tracks.write h ⟨environmentId, path⟩ (some content)
    simpa [Follows, replayChange, AppliedPatchChange.inEnvironment, TurnDiffTracker.applyChange,
      applyAdd] using hwrite
  | delete content =>
    replace hc : now ⟨environmentId, path⟩ = some content := hc
    have hwrite := NetChange.Tracks.write h ⟨environmentId, path⟩ none
    rw [hc] at hwrite
    simpa [Follows, replayChange, AppliedPatchChange.inEnvironment,
      TurnDiffTracker.applyChange] using hwrite
  | update movePath old overwritten new =>
    obtain ⟨hold, hoverwritten⟩ := hc
    replace hold : now ⟨environmentId, path⟩ = some old := hold
    cases movePath with
    | none =>
      have hwrite := NetChange.Tracks.write h ⟨environmentId, path⟩ (some new)
      rw [hold] at hwrite
      simpa [Follows, replayChange, AppliedPatchChange.inEnvironment, TurnDiffTracker.applyChange,
        applyUpdate] using hwrite
    | some dest =>
      obtain rfl : overwritten = now ⟨environmentId, dest⟩ := hoverwritten _ rfl
      have hmove := NetChange.Tracks.move h ⟨environmentId, path⟩ ⟨environmentId, dest⟩ (some new)
      rw [hold] at hmove
      simpa [Follows, replayChange, AppliedPatchChange.inEnvironment, TurnDiffTracker.applyChange,
        applyUpdate] using hmove

/-! ### Revisions -/

/-- The revisions of contents have been given out, and each belongs to one text. -/
def Versioned (texts : ℕ → Text) (nextRevision : ℕ)
    (contents : AList fun _ : TrackedPath Path => TrackedContent) : Prop :=
  ∀ path content, contents.lookup path = some content →
    content.revision < nextRevision ∧ content.content = texts content.revision

/-- A diff that is kept is the one of the texts with the revisions of its key. -/
def VersionedDiffs (tools : DiffTools Path) (roots : StrMap Path) (texts : ℕ → Text)
    (nextRevision : ℕ)
    (diffs : AList fun _ : DiffCacheKey Path => Option Text) : Prop :=
  ∀ key diff, diffs.lookup key = some diff →
    (∀ revision, key.leftRevision = some revision → revision < nextRevision) ∧
    (∀ revision, key.rightRevision = some revision → revision < nextRevision) ∧
    diff = renderDiff tools roots key.leftPath (key.leftRevision.map texts) key.rightPath
      (key.rightRevision.map texts)

/-- **A revision is given out once**, so that it tells a text. -/
structure Versions (tools : DiffTools Path) (texts : ℕ → Text) (t : TurnDiffTracker Path) :
    Prop where
  baseline : Versioned texts t.nextRevision t.baselineByPath
  current : Versioned texts t.nextRevision t.currentByPath
  diffs : VersionedDiffs tools t.displayRootsByEnvironment texts t.nextRevision t.renderedDiffs

variable {tools : DiffTools Path} {texts : ℕ → Text}

theorem Versioned.extend (h : Versioned texts nextRevision contents) (content : Text) :
    Versioned (Function.update texts nextRevision content) (nextRevision + 1) contents := by
  intro path held hheld
  obtain ⟨hlt, htext⟩ := h path held hheld
  rw [Function.update_of_ne hlt.ne]
  exact ⟨hlt.trans (Nat.lt_succ_self _), htext⟩

theorem Versioned.insert (h : Versioned texts nextRevision contents) (path : TrackedPath Path)
    (content : Text) :
    Versioned (Function.update texts nextRevision content) (nextRevision + 1)
      (contents.insert path ⟨content, nextRevision⟩) := by
  intro p held hheld
  by_cases hp : p = path
  · subst hp
    rw [AList.lookup_insert] at hheld
    obtain rfl := Option.some.inj hheld
    exact ⟨Nat.lt_succ_self _, (Function.update_self nextRevision content texts).symm⟩
  · rw [AList.lookup_insert_ne hp] at hheld
    exact h.extend content p held hheld

theorem Versioned.erase (h : Versioned texts nextRevision contents) (path : TrackedPath Path) :
    Versioned texts nextRevision (contents.erase path) := by
  intro p held hheld
  by_cases hp : p = path
  · subst hp
    rw [AList.lookup_erase] at hheld
    exact nomatch hheld
  · rw [AList.lookup_erase_ne hp] at hheld
    exact h p held hheld

theorem map_update {revision : Option ℕ} {content : Text}
    (h : ∀ n, revision = some n → n < nextRevision) :
    revision.map (Function.update texts nextRevision content) = revision.map texts := by
  cases revision with
  | none => rfl
  | some n => rw [Option.map_some, Option.map_some, Function.update_of_ne (h n rfl).ne]

theorem VersionedDiffs.extend {roots : StrMap Path}
    (h : VersionedDiffs tools roots texts nextRevision diffs) (content : Text) :
    VersionedDiffs tools roots (Function.update texts nextRevision content) (nextRevision + 1)
      diffs := by
  intro key diff hdiff
  obtain ⟨hleft, hright, hrender⟩ := h key diff hdiff
  refine ⟨fun n hn => Nat.lt_succ_of_lt (hleft n hn), fun n hn => Nat.lt_succ_of_lt (hright n hn),
    ?_⟩
  rw [map_update hleft, map_update hright]
  exact hrender

/-- The tracker keeps its revisions, with texts that may be more than before. -/
def Coherent (tools : DiffTools Path) (t : TurnDiffTracker Path) : Prop :=
  ∃ texts, Versions tools texts t

theorem Coherent.insertBaseline (h : Coherent tools t) (path : TrackedPath Path) (content : Text) :
    Coherent tools (t.insertBaseline path content) := by
  obtain ⟨texts, hbaseline, hcurrent, hdiffs⟩ := h
  exact ⟨_, hbaseline.insert path content, hcurrent.extend content, hdiffs.extend content⟩

theorem Coherent.insertCurrent (h : Coherent tools t) (path : TrackedPath Path) (content : Text) :
    Coherent tools (t.insertCurrent path content) := by
  obtain ⟨texts, hbaseline, hcurrent, hdiffs⟩ := h
  exact ⟨_, hbaseline.extend content, hcurrent.insert path content, hdiffs.extend content⟩

theorem Coherent.removeCurrent (h : Coherent tools t) (path : TrackedPath Path) :
    Coherent tools (t.removeCurrent path) := by
  obtain ⟨texts, hbaseline, hcurrent, hdiffs⟩ := h
  exact ⟨texts, hbaseline, hcurrent.erase path, hdiffs⟩

theorem Coherent.withOrigins (h : Coherent tools t)
    (origins : AList fun _ : TrackedPath Path => TrackedPath Path) :
    Coherent tools { t with originByCurrentPath := origins } := by
  obtain ⟨texts, hbaseline, hcurrent, hdiffs⟩ := h
  exact ⟨texts, hbaseline, hcurrent, hdiffs⟩

theorem Coherent.captureBaseline (h : Coherent tools t) (path : TrackedPath Path)
    (held : Option Text) : Coherent tools (t.captureBaseline path held) := by
  rw [TurnDiffTracker.captureBaseline]
  split
  · cases held with
    | none => exact h
    | some content => exact h.insertBaseline path content
  · exact h

theorem Coherent.removeOrigin (h : Coherent tools t) (path : TrackedPath Path) :
    Coherent tools (t.removeOrigin path) := h.withOrigins _

theorem Coherent.applyMove (h : Coherent tools t) (source dest : TrackedPath Path)
    (overwritten : Option Text) (new : Text) :
    Coherent tools (t.applyMove source dest overwritten new) := by
  have hcaptured := h.captureBaseline dest overwritten
  have hmoved := ((hcaptured.removeOrigin source).removeCurrent source).insertCurrent dest new
  rw [TurnDiffTracker.applyMove, setOrigin]
  split
  · exact (hmoved.removeOrigin dest).withOrigins _
  · exact hmoved.removeOrigin dest

theorem Coherent.applyChange (h : Coherent tools t) (environmentId : String)
    (c : AppliedPatchChange Path) : Coherent tools (t.applyChange environmentId c) := by
  rw [TurnDiffTracker.applyChange]
  split
  · exact ((h.removeOrigin _).captureBaseline _ _).insertCurrent _ _
  · rw [applyDelete]
    split
    · exact ((h.removeCurrent _).insertBaseline _ _).removeOrigin _
    · exact (h.removeCurrent _).removeOrigin _
  · next movePath old overwritten new _ =>
    have hcaptured := h.captureBaseline ⟨environmentId, c.path⟩ (some old)
    cases movePath with
    | none => exact hcaptured.insertCurrent _ _
    | some dest => exact hcaptured.applyMove _ _ _ _

/-! ### Renamings -/

theorem mem_renameEntries (h : (o, d) ∈ t.renameEntries iteration) :
    t.originByCurrentPath.lookup d = some o ∧ t.current o = none ∧ t.current d ≠ none ∧
      t.baseline o ≠ none ∧ t.baseline d = none := by
  obtain ⟨⟨dest, origin⟩, hentry, hpair⟩ := List.mem_filterMap.mp h
  split at hpair
  · exact nomatch hpair
  · next hnot =>
    obtain ⟨rfl, rfl⟩ := Prod.mk.inj (Option.some.inj hpair)
    simp only [not_or, not_not] at hnot
    obtain ⟨-, hgone, hnew, hbase, hfree⟩ := hnot
    refine ⟨AList.mem_lookup_iff.mpr ((iteration.perm _).mem_iff.mp hentry), ?_, ?_, ?_, ?_⟩
    · rw [current, Option.not_isSome_iff_eq_none.mp hgone]
      rfl
    · rw [current, Ne, Option.map_eq_none_iff]
      exact Option.isSome_iff_ne_none.mp hnew
    · rw [baseline, Ne, Option.map_eq_none_iff]
      exact Option.isSome_iff_ne_none.mp hbase
    · rw [baseline, Option.not_isSome_iff_eq_none.mp hfree]
      rfl

/-- What a map that is collected from pairs holds is one of the pairs. -/
theorem mem_of_lookup_collect {entries : List (TrackedPath Path × TrackedPath Path)}
    {pairs : AList fun _ : TrackedPath Path => TrackedPath Path}
    (h : (entries.foldl (fun pairs entry => pairs.insert entry.1 entry.2) pairs).lookup o =
      some d) :
    (o, d) ∈ entries ∨ pairs.lookup o = some d := by
  induction entries generalizing pairs with
  | nil => exact Or.inr h
  | cons entry entries ih =>
    rcases ih h with hmem | hlookup
    · exact Or.inl (List.mem_cons_of_mem _ hmem)
    · by_cases ho : o = entry.1
      · subst ho
        rw [AList.lookup_insert] at hlookup
        obtain rfl := Option.some.inj hlookup
        exact Or.inl List.mem_cons_self
      · rw [AList.lookup_insert_ne ho] at hlookup
        exact Or.inr hlookup

theorem mem_of_renamePairs (h : (t.renamePairs iteration).lookup o = some d) :
    (o, d) ∈ t.renameEntries iteration :=
  (mem_of_lookup_collect h).resolve_right nofun

theorem renaming_renamePairs (t : TurnDiffTracker Path) (iteration : Iteration) :
    NetChange.Renaming t.baseline t.current ((t.renamePairs iteration).lookup ·) where
  gone h := by
    obtain ⟨-, hgone, -, hbase, -⟩ := mem_renameEntries (mem_of_renamePairs h)
    exact ⟨hbase, hgone⟩
  new h := by
    obtain ⟨-, -, hnew, -, hfree⟩ := mem_renameEntries (mem_of_renamePairs h)
    exact ⟨hfree, hnew⟩
  inj h h' := by
    have horigin := (mem_renameEntries (mem_of_renamePairs h)).1
    have horigin' := (mem_renameEntries (mem_of_renamePairs h')).1
    exact Option.some.inj (horigin.symm.trans horigin')

theorem mem_values_iff {pairs : AList fun _ : TrackedPath Path => TrackedPath Path} :
    d ∈ pairs.entries.map (·.2) ↔ ∃ o, pairs.lookup o = some d := by
  constructor
  · intro h
    obtain ⟨⟨o, dest⟩, hentry, rfl⟩ := List.mem_map.mp h
    exact ⟨o, AList.mem_lookup_iff.mpr hentry⟩
  · rintro ⟨o, ho⟩
    exact List.mem_map.mpr ⟨⟨o, d⟩, AList.mem_lookup_iff.mp ho, rfl⟩

/-! ### The paths of a refresh -/

theorem mem_dedupAdjacent [DecidableEq α] {a : α} {l : List α} : a ∈ dedupAdjacent l ↔ a ∈ l := by
  fun_induction dedupAdjacent l with
  | case1 a' rest ih =>
    rw [ih]
    simp
  | case2 a' b rest hne ih => rw [List.mem_cons, ih, ← List.mem_cons]
  | case3 l _ => rfl

theorem mem_sortedPaths :
    path ∈ t.sortedPaths tools iteration ↔ t.baseline path ≠ none ∨ t.current path ≠ none := by
  rw [sortedPaths, mem_dedupAdjacent, List.mem_mergeSort, List.mem_append,
    (iteration.perm _).mem_iff, (iteration.perm _).mem_iff, ← AList.mem_keys, ← AList.mem_keys,
    baseline, current, Ne, Ne, Option.map_eq_none_iff, Option.map_eq_none_iff, AList.lookup_eq_none,
    AList.lookup_eq_none, not_not, not_not]

/-! ### What a refresh renders -/

/-- The diffs that are kept are those that would be rendered anew. -/
def CacheRight (tools : DiffTools Path) (t : TurnDiffTracker Path)
    (diffs : AList fun _ : DiffCacheKey Path => Option Text) : Prop :=
  ∀ left right diff, diffs.lookup (t.cacheKey left right) = some diff →
    diff = t.freshDiff tools left right

theorem CacheRight.erase (h : CacheRight tools t diffs) (key : DiffCacheKey Path) :
    CacheRight tools t (diffs.erase key) := by
  intro left right diff hdiff
  by_cases hkey : t.cacheKey left right = key
  · rw [hkey, AList.lookup_erase] at hdiff
    exact nomatch hdiff
  · rw [AList.lookup_erase_ne hkey] at hdiff
    exact h left right diff hdiff

theorem cacheRight_empty : CacheRight tools t ∅ := by
  intro left right diff hdiff
  rw [AList.lookup_empty] at hdiff
  exact nomatch hdiff

theorem Versions.map_baseline (h : Versions tools texts t) (path : TrackedPath Path) :
    ((t.baselineByPath.lookup path).map (·.revision)).map texts = t.baseline path := by
  rw [TurnDiffTracker.baseline]
  cases hlookup : t.baselineByPath.lookup path with
  | none => rfl
  | some content => exact congrArg some (h.baseline path content hlookup).2.symm

theorem Versions.map_current (h : Versions tools texts t) (path : TrackedPath Path) :
    ((t.currentByPath.lookup path).map (·.revision)).map texts = t.current path := by
  rw [TurnDiffTracker.current]
  cases hlookup : t.currentByPath.lookup path with
  | none => rfl
  | some content => exact congrArg some (h.current path content hlookup).2.symm

theorem Versions.freshDiff_eq (h : Versions tools texts t) (left right : TrackedPath Path) :
    t.freshDiff tools left right =
      renderDiff tools t.displayRootsByEnvironment left
        ((t.cacheKey left right).leftRevision.map texts)
        right ((t.cacheKey left right).rightRevision.map texts) := by
  rw [freshDiff, cacheKey, h.map_baseline, h.map_current]

theorem Versions.cacheRight (h : Versions tools texts t) : CacheRight tools t t.renderedDiffs := by
  intro left right diff hdiff
  rw [h.freshDiff_eq]
  exact (h.diffs _ diff hdiff).2.2

variable {pairs : AList fun _ : TrackedPath Path => TrackedPath Path} {s s' : RefreshState Path}

/-- What a path is shown with. -/
def partner (pairs : AList fun _ : TrackedPath Path => TrackedPath Path) (path : TrackedPath Path) :
    TrackedPath Path := (pairs.lookup path).getD path

/-- The diff of a path and its partner. -/
def shownDiff (tools : DiffTools Path) (t : TurnDiffTracker Path)
    (pairs : AList fun _ : TrackedPath Path => TrackedPath Path) (path : TrackedPath Path) :
    Option Text :=
  t.freshDiff tools path (partner pairs path)

/-- A refresh behind a path whose diff is shown. -/
def refreshShown (tools : DiffTools Path) (t : TurnDiffTracker Path)
    (pairs : AList fun _ : TrackedPath Path => TrackedPath Path) (s : RefreshState Path)
    (path : TrackedPath Path) : RefreshState Path where
  handled := (pairs.lookup path).toList ++ path :: s.handled
  previousDiffs := s.previousDiffs.erase (t.cacheKey path (partner pairs path))
  renderedDiffs := s.renderedDiffs.insert (t.cacheKey path (partner pairs path))
    (t.shownDiff tools pairs path)
  aggregated := pushDiff s.aggregated (t.shownDiff tools pairs path)

/-- **A path of a refresh**: it is skipped, or it is a destination, or its diff is shown – if what
is kept is right, the one that would be rendered anew. -/
theorem refreshPath_eq (hcache : CacheRight tools t s.previousDiffs) (path : TrackedPath Path) :
    t.refreshPath tools pairs s path =
      if path ∈ s.handled then s
      else if path ∈ pairs.entries.map (·.2) then { s with handled := path :: s.handled }
      else t.refreshShown tools pairs s path := by
  -- what is kept for the pair is what is rendered
  have hrendered (right : TrackedPath Path) :
      (s.previousDiffs.lookup (t.cacheKey path right)).getD (t.freshDiff tools path right) =
        t.freshDiff tools path right := by
    cases hlookup : s.previousDiffs.lookup (t.cacheKey path right) with
    | none => rfl
    | some diff => exact hcache path right diff hlookup
  rw [refreshPath]
  split
  · rfl
  · split
    · rfl
    · split
      · next dest hlookup =>
        simp only [refreshPair, refreshShown, shownDiff, partner, hrendered, hlookup,
          Option.getD_some]
        rfl
      · next hlookup =>
        simp only [refreshPair, refreshShown, shownDiff, partner, hrendered, hlookup,
          Option.getD_none]
        rfl

/-- **What has been shown** of the paths that were visited: the diffs of those that are no
destinations, each once. -/
structure Shows (tools : DiffTools Path) (t : TurnDiffTracker Path)
    (pairs : AList fun _ : TrackedPath Path => TrackedPath Path)
    (visited shown : List (TrackedPath Path)) (s : RefreshState Path) : Prop where
  nodup : shown.Nodup
  mem : ∀ p, p ∈ shown ↔ p ∈ visited ∧ p ∉ pairs.entries.map (·.2)
  handled : ∀ p ∈ s.handled, p ∈ visited ∨ p ∈ pairs.entries.map (·.2)
  visited : ∀ p ∈ visited, p ∈ s.handled
  cache : CacheRight tools t s.previousDiffs
  rendered : ∀ key diff, s.renderedDiffs.lookup key = some diff ↔
    ∃ p ∈ shown, key = t.cacheKey p (partner pairs p) ∧ diff = t.shownDiff tools pairs p
  aggregated : s.aggregated = (shown.map (t.shownDiff tools pairs)).foldl pushDiff []

variable {visited shown : List (TrackedPath Path)}

theorem Shows.skip (h : Shows tools t pairs visited shown s)
    (hpath : path ∈ visited ∨ path ∈ pairs.entries.map (·.2)) {handled : List (TrackedPath Path)}
    (hhandled : ∀ p, p ∈ handled ↔ p = path ∨ p ∈ s.handled) :
    Shows tools t pairs (visited ++ [path]) shown { s with handled := handled } where
  nodup := h.nodup
  mem p := by
    rw [h.mem, List.mem_append, List.mem_singleton]
    constructor
    · exact fun hp => ⟨Or.inl hp.1, hp.2⟩
    · rintro ⟨hvisited | rfl, hdest⟩
      · exact ⟨hvisited, hdest⟩
      · exact ⟨hpath.resolve_right hdest, hdest⟩
  handled p hp := by
    rcases (hhandled p).mp hp with rfl | hp
    · exact Or.inl (List.mem_append_right _ List.mem_cons_self)
    · exact (h.handled p hp).imp_left (List.mem_append_left _)
  visited p hp := by
    rw [hhandled]
    rcases List.mem_append.mp hp with hp | hp
    · exact Or.inr (h.visited p hp)
    · exact Or.inl (List.mem_singleton.mp hp)
  cache := h.cache
  rendered := h.rendered
  aggregated := h.aggregated

theorem Shows.show (h : Shows tools t pairs visited shown s) (hhandled : path ∉ s.handled)
    (hdest : path ∉ pairs.entries.map (·.2)) :
    Shows tools t pairs (visited ++ [path]) (shown ++ [path])
        (t.refreshShown tools pairs s path) where
  nodup := by
    refine List.nodup_append.mpr ⟨h.nodup, List.nodup_singleton path, ?_⟩
    rintro p hp q hq rfl
    obtain rfl := List.mem_singleton.mp hq
    exact hhandled (h.visited p ((h.mem p).mp hp).1)
  mem p := by
    rw [List.mem_append, List.mem_append, h.mem, List.mem_singleton]
    constructor
    · rintro (hp | rfl)
      · exact ⟨Or.inl hp.1, hp.2⟩
      · exact ⟨Or.inr rfl, hdest⟩
    · rintro ⟨hvisited | rfl, hp⟩
      · exact Or.inl ⟨hvisited, hp⟩
      · exact Or.inr rfl
  handled p hp := by
    rcases List.mem_append.mp hp with hp | hp
    · exact Or.inr (mem_values_iff.mpr ⟨path, Option.mem_toList.mp hp⟩)
    · rcases List.mem_cons.mp hp with rfl | hp
      · exact Or.inl (List.mem_append_right _ List.mem_cons_self)
      · exact (h.handled p hp).imp_left (List.mem_append_left _)
  visited p hp := by
    refine List.mem_append_right _ (List.mem_cons.mpr ?_)
    rcases List.mem_append.mp hp with hp | hp
    · exact Or.inr (h.visited p hp)
    · exact Or.inl (List.mem_singleton.mp hp)
  cache := h.cache.erase _
  rendered key diff := by
    rw [refreshShown]
    by_cases hkey : key = t.cacheKey path (partner pairs path)
    · subst hkey
      rw [AList.lookup_insert, Option.some.injEq]
      constructor
      · rintro rfl
        exact ⟨path, List.mem_append_right _ List.mem_cons_self, rfl, rfl⟩
      · rintro ⟨p, -, hp, rfl⟩
        obtain rfl : path = p := congrArg DiffCacheKey.leftPath hp
        rfl
    · rw [AList.lookup_insert_ne hkey, h.rendered]
      constructor
      · rintro ⟨p, hp, hdiff⟩
        exact ⟨p, List.mem_append_left _ hp, hdiff⟩
      · rintro ⟨p, hp, heq, hdiff⟩
        rcases List.mem_append.mp hp with hp | hp
        · exact ⟨p, hp, heq, hdiff⟩
        · obtain rfl := List.mem_singleton.mp hp
          exact absurd heq hkey
  aggregated := by
    rw [List.map_append, List.foldl_append, ← h.aggregated]
    rfl

theorem Shows.refreshPath (h : Shows tools t pairs visited shown s) (path : TrackedPath Path) :
    ∃ shown', Shows tools t pairs (visited ++ [path]) shown'
        (t.refreshPath tools pairs s path) := by
  rw [refreshPath_eq h.cache]
  split
  · next hhandled =>
    refine ⟨shown, h.skip (h.handled path hhandled) fun p => ?_⟩
    exact ⟨Or.inr, fun hp => hp.elim (fun heq => heq ▸ hhandled) id⟩
  · next hhandled =>
    split
    · next hdest => exact ⟨shown, h.skip (Or.inr hdest) fun p => List.mem_cons⟩
    · next hdest => exact ⟨shown ++ [path], h.show hhandled hdest⟩

/-- **A run over the paths.** -/
theorem Shows.foldl (h : Shows tools t pairs visited shown s) (paths : List (TrackedPath Path)) :
    ∃ shown', Shows tools t pairs (visited ++ paths) shown'
      (paths.foldl (t.refreshPath tools pairs) s) := by
  induction paths generalizing visited shown s with
  | nil =>
    rw [List.append_nil]
    exact ⟨shown, h⟩
  | cons path paths ih =>
    obtain ⟨shown', h'⟩ := h.refreshPath path
    have hrest := ih h'
    rw [List.append_assoc, List.singleton_append] at hrest
    exact hrest

theorem shows_nil (h : CacheRight tools t diffs) :
    Shows tools t pairs [] [] ⟨[], diffs, ∅, []⟩ where
  nodup := List.nodup_nil
  mem _ := by simp
  handled := nofun
  visited := nofun
  cache := h
  rendered key diff := by simp
  aggregated := rfl

/-- Two refreshes with right diffs kept, whatever these are, show the same. -/
theorem foldl_refreshPath_congr (hcache : CacheRight tools t s.previousDiffs)
    (hcache' : CacheRight tools t s'.previousDiffs) (hhandled : s.handled = s'.handled)
    (haggregated : s.aggregated = s'.aggregated) (paths : List (TrackedPath Path)) :
    (paths.foldl (t.refreshPath tools pairs) s).aggregated =
      (paths.foldl (t.refreshPath tools pairs) s').aggregated := by
  induction paths generalizing s s' with
  | nil => exact haggregated
  | cons path paths ih =>
    rw [List.foldl_cons, List.foldl_cons, refreshPath_eq hcache, refreshPath_eq hcache', hhandled]
    split
    · exact ih hcache hcache' hhandled haggregated
    · split
      · exact ih hcache hcache' rfl haggregated
      · refine ih (hcache.erase _) (hcache'.erase _) ?_ ?_
        · rw [refreshShown, refreshShown, hhandled]
        · rw [refreshShown, refreshShown, haggregated]

/-! ### The net change -/

/-- The diff of a list of pairs, with the old contents on the left and the new ones on the right. -/
def diffOfPairs (tools : DiffTools Path) (roots : StrMap Path)
    (first now : TrackedPath Path → Option Text)
    (shown : List (TrackedPath Path × TrackedPath Path)) : Option Text :=
  let aggregated := (shown.map fun pair =>
    renderDiff tools roots pair.1 (first pair.1) pair.2 (now pair.2)).foldl pushDiff []
  if aggregated = [] then none else some aggregated

/-- **The diff of the tracker is the net change**, shown by these pairs of paths. -/
structure IsNetDiff (tools : DiffTools Path) (first now : TrackedPath Path → Option Text)
    (t : TurnDiffTracker Path) (shown : List (TrackedPath Path × TrackedPath Path)) : Prop where
  nodup : shown.Nodup
  /-- The pairs are those for which the tracker has rendered a diff. -/
  rendered : ∀ left right, (left, right) ∈ shown ↔ ∃ key diff,
    t.renderedDiffs.lookup key = some (some diff) ∧ key.leftPath = left ∧ key.rightPath = right
  /-- The text is the diffs of the pairs. -/
  text : t.unifiedDiff = diffOfPairs tools t.displayRootsByEnvironment first now shown
  /-- Only changes are shown. -/
  changed : ∀ pair ∈ shown, first pair.1 ≠ now pair.1 ∧ first pair.2 ≠ now pair.2
  /-- A path that has changed is in one pair, or it was renamed and nothing else: the origin
  is gone, the destination is new, and it holds what the origin held. -/
  covers : ∀ p, first p ≠ now p →
    (∃! pair, pair ∈ shown ∧ (pair.1 = p ∨ pair.2 = p)) ∨
    (∀ pair ∈ shown, pair.1 ≠ p ∧ pair.2 ≠ p) ∧
      ∃ origin dest, t.originByCurrentPath.lookup dest = some origin ∧ now origin = none ∧
        first dest = none ∧ first origin = now dest ∧ (p = origin ∨ p = dest)

theorem shown_iff {left right : TrackedPath Path} :
    NetChange.Shown (pairs.lookup ·) left right ↔
      left ∉ pairs.entries.map (·.2) ∧ right = partner pairs left := by
  rw [NetChange.Shown, mem_values_iff, not_exists]
  rfl

theorem foldl_pushDiff_filter (f : α → Option Text) (l : List α) (aggregated : Text) :
    (l.map f).foldl pushDiff aggregated =
      ((l.filter fun a => (f a).isSome).map f).foldl pushDiff aggregated := by
  induction l generalizing aggregated with
  | nil => rfl
  | cons a l ih =>
    cases hdiff : f a with
    | none =>
      rw [List.filter_cons_of_neg (by simp [hdiff]), List.map_cons, List.foldl_cons, hdiff]
      exact ih aggregated
    | some diff =>
      rw [List.filter_cons_of_pos (by simp [hdiff]), List.map_cons, List.map_cons, List.foldl_cons,
        List.foldl_cons, hdiff]
      exact ih _

/-- **What a refresh leaves.** -/
theorem refresh_spec (h : Coherent tools t) (iteration : Iteration) :
    ∃ shown : List (TrackedPath Path), shown.Nodup ∧
      (∀ p, p ∈ shown ↔ (t.baseline p ≠ none ∨ t.current p ≠ none) ∧
        p ∉ (t.renamePairs iteration).entries.map (·.2)) ∧
      (∀ key diff, (t.refreshUnifiedDiff tools iteration).renderedDiffs.lookup key = some diff ↔
        ∃ p ∈ shown, key = t.cacheKey p (partner (t.renamePairs iteration) p) ∧
          diff = t.shownDiff tools (t.renamePairs iteration) p) ∧
      (t.refreshUnifiedDiff tools iteration).unifiedDiff =
        if (shown.map (t.shownDiff tools (t.renamePairs iteration))).foldl pushDiff
          [] = [] then none
        else some ((shown.map (t.shownDiff tools (t.renamePairs iteration))).foldl
          pushDiff []) := by
  obtain ⟨texts, hversions⟩ := h
  have hstart : Shows tools t (t.renamePairs iteration) [] [] ⟨[], t.renderedDiffs, ∅, []⟩ :=
    shows_nil hversions.cacheRight
  obtain ⟨shown, hshows⟩ := hstart.foldl (t.sortedPaths tools iteration)
  refine ⟨shown, hshows.nodup, fun p => ?_, hshows.rendered, ?_⟩
  · rw [hshows.mem, List.nil_append, mem_sortedPaths]
  · rw [refreshUnifiedDiff, ← hshows.aggregated]

theorem Coherent.refreshUnifiedDiff (h : Coherent tools t) (iteration : Iteration) :
    Coherent tools (t.refreshUnifiedDiff tools iteration) := by
  obtain ⟨shown, -, -, hrendered, -⟩ := refresh_spec h iteration
  obtain ⟨texts, hversions⟩ := h
  refine ⟨texts, hversions.baseline, hversions.current, fun key diff hdiff => ?_⟩
  obtain ⟨p, -, rfl, rfl⟩ := (hrendered key diff).mp hdiff
  refine ⟨fun revision hrevision => ?_, fun revision hrevision => ?_, hversions.freshDiff_eq _ _⟩
  · obtain ⟨content, hlookup, rfl⟩ := Option.map_eq_some_iff.mp hrevision
    exact (hversions.baseline _ content hlookup).1
  · obtain ⟨content, hlookup, rfl⟩ := Option.map_eq_some_iff.mp hrevision
    exact (hversions.current _ content hlookup).1

theorem isSome_shownDiff :
    (t.shownDiff tools pairs path).isSome = true ↔
        t.baseline path ≠ t.current (partner pairs path) :=
  isSome_renderDiff tools

theorem followed_of_differs (hrenaming : NetChange.Renaming t.baseline t.current (pairs.lookup ·))
    (h : t.baseline path ≠ t.current (partner pairs path)) :
    t.baseline path ≠ none ∨ t.current path ≠ none := by
  rw [partner] at h
  cases hlookup : pairs.lookup path with
  | some dest => exact Or.inl (hrenaming.gone hlookup).1
  | none =>
    rw [hlookup, Option.getD_none] at h
    by_contra hnone
    rw [not_or, not_not, not_not] at hnone
    exact h (hnone.1.trans hnone.2.symm)

/-- **A refresh shows the net change.** -/
theorem isNetDiff_refresh (hfollows : Follows first now t) (hcoherent : Coherent tools t)
    (iteration : Iteration) :
    ∃ shown, IsNetDiff tools first now (t.refreshUnifiedDiff tools iteration) shown := by
  obtain ⟨paths, hnodup, hmem, hrendered, htext⟩ := refresh_spec hcoherent iteration
  have hrenaming := renaming_renamePairs t iteration
  generalize hpairs : t.renamePairs iteration = pairs at hmem hrendered htext hrenaming
  let shown := (paths.filter fun p => (t.shownDiff tools pairs p).isSome).map fun p =>
    (p, partner pairs p)
  -- the pairs are those of the renaming that differ
  have hshown (left right : TrackedPath Path) : (left, right) ∈ shown ↔
      NetChange.Shown (pairs.lookup ·) left right ∧ t.baseline left ≠ t.current right := by
    rw [shown_iff]
    constructor
    · intro hpair
      obtain ⟨p, hp, heq⟩ := List.mem_map.mp hpair
      obtain ⟨rfl, rfl⟩ := Prod.mk.inj heq
      obtain ⟨hp, hdiff⟩ := List.mem_filter.mp hp
      exact ⟨⟨((hmem p).mp hp).2, rfl⟩, isSome_shownDiff.mp hdiff⟩
    · rintro ⟨⟨hdest, rfl⟩, hdiffers⟩
      refine List.mem_map.mpr ⟨left, List.mem_filter.mpr ⟨?_, isSome_shownDiff.mpr hdiffers⟩, rfl⟩
      exact (hmem left).mpr ⟨followed_of_differs hrenaming hdiffers, hdest⟩
  have hsides (pair : TrackedPath Path × TrackedPath Path) (hpair : pair ∈ shown) :=
    hfollows.changed_of_shown hrenaming ((hshown pair.1 pair.2).mp hpair).1
      ((hshown pair.1 pair.2).mp hpair).2
  refine ⟨shown, ?_, fun left right => ?_, ?_, fun pair hpair => (hsides pair hpair).2, ?_⟩
  · refine (hnodup.filter _).map fun p q heq => ?_
    exact (Prod.mk.inj heq).1
  · constructor
    · intro hpair
      obtain ⟨p, hp, heq⟩ := List.mem_map.mp hpair
      obtain ⟨rfl, rfl⟩ := Prod.mk.inj heq
      obtain ⟨hp, hdiff⟩ := List.mem_filter.mp hp
      obtain ⟨diff, hdiff⟩ := Option.isSome_iff_exists.mp hdiff
      exact ⟨_, diff, (hrendered _ _).mpr ⟨p, hp, rfl, hdiff.symm⟩, rfl, rfl⟩
    · rintro ⟨key, diff, hlookup, rfl, rfl⟩
      obtain ⟨p, hp, rfl, hdiff⟩ := (hrendered _ _).mp hlookup
      refine List.mem_map.mpr ⟨p, List.mem_filter.mpr ⟨hp, ?_⟩, rfl⟩
      rw [← hdiff]
      rfl
  · rw [htext, diffOfPairs, foldl_pushDiff_filter]
    have hdiffs : (paths.filter fun p => (t.shownDiff tools pairs p).isSome).map
        (t.shownDiff tools pairs) = shown.map fun pair =>
          renderDiff tools t.displayRootsByEnvironment pair.1 (first pair.1) pair.2
              (now pair.2) := by
      rw [List.map_map]
      refine List.map_congr_left fun p hp => ?_
      obtain ⟨⟨hbase, hcurrent⟩, -⟩ := hsides (p, partner pairs p) (List.mem_map.mpr ⟨p, hp, rfl⟩)
      rw [shownDiff, freshDiff, hbase, hcurrent]
      rfl
    rw [hdiffs]
    rfl
  · intro p hchanged
    obtain ⟨⟨left, right⟩, ⟨hpair, hp⟩, hunique⟩ := NetChange.existsUnique_shown hrenaming p
    rcases hfollows.shown_of_changed hchanged hpair hp with hdiffers | ⟨hrename, hsame⟩
    · refine Or.inl ⟨(left, right), ⟨(hshown left right).mpr ⟨hpair, hdiffers⟩, hp⟩, ?_⟩
      rintro other ⟨hother, hcovers⟩
      exact hunique other ⟨((hshown other.1 other.2).mp hother).1, hcovers⟩
    · obtain ⟨⟨hbase, hcurrent⟩, hgone, hnew⟩ := hfollows.of_rename hrenaming hrename
      refine Or.inr ⟨fun other hother => ?_, left, right, ?_, hgone, hnew, ?_, ?_⟩
      · -- a pair with this path would be the one that is left out
        obtain ⟨hother, hdiffers⟩ := (hshown other.1 other.2).mp hother
        rw [← not_or]
        intro hcovers
        obtain rfl := hunique other ⟨hother, hcovers⟩
        exact hdiffers hsame
      · subst hpairs
        exact (mem_renameEntries (mem_of_renamePairs hrename)).1
      · rw [← hbase, ← hcurrent]
        exact hsame
      · exact hp.imp Eq.symm Eq.symm

/-- **A refresh with the diffs that are kept shows what one without them does.** -/
theorem unifiedDiff_from_scratch (h : Coherent tools t) (iteration : Iteration) :
    (t.refreshUnifiedDiff tools iteration).unifiedDiff =
      (refreshUnifiedDiff tools
        { t.refreshUnifiedDiff tools iteration with renderedDiffs := ∅ }
            iteration).unifiedDiff := by
  obtain ⟨texts, hversions⟩ := h
  have hsame : ((t.sortedPaths tools iteration).foldl
      (t.refreshPath tools (t.renamePairs iteration)) ⟨[], t.renderedDiffs, ∅, []⟩).aggregated =
      ((t.sortedPaths tools iteration).foldl
        (t.refreshPath tools (t.renamePairs iteration)) ⟨[], ∅, ∅, []⟩).aggregated := by
    apply foldl_refreshPath_congr
    · exact hversions.cacheRight
    · exact cacheRight_empty
    · rfl
    · rfl
  simp only [refreshUnifiedDiff]
  rw [hsame]
  rfl

/-! ### Turns -/

/-- A delta that is tracked, with the order in which the maps are gone through. -/
structure TrackStep (Path : Type) where
  iteration : Iteration
  environmentId : String
  delta : AppliedPatchDelta Path

/-- The tracker behind a step. -/
def step (tools : DiffTools Path) (t : TurnDiffTracker Path) (s : TrackStep Path) :
    TurnDiffTracker Path := t.trackDelta tools s.iteration s.environmentId s.delta

/-- The changes of a step. -/
def TrackStep.changes (s : TrackStep Path) : List (AppliedPatchChange (TrackedPath Path)) :=
  s.delta.changes.map (·.inEnvironment s.environmentId)

/-- Each change records the contents that are there when it is made. -/
def ConsistentChanges (files : TrackedPath Path → Option Text) :
    List (AppliedPatchChange (TrackedPath Path)) → Prop
  | [] => True
  | c :: changes => Consistent files c ∧ ConsistentChanges (replayChange c files) changes

theorem consistentChanges_append {changes changes' : List (AppliedPatchChange (TrackedPath Path))} :
    ConsistentChanges now (changes ++ changes') ↔ ConsistentChanges now changes ∧
      ConsistentChanges (fileChanges.replayAll changes now) changes' := by
  induction changes generalizing now with
  | nil => exact ⟨fun h => ⟨trivial, h⟩, fun h => h.2⟩
  | cons c changes ih =>
    rw [List.cons_append, ConsistentChanges, ConsistentChanges, ih, and_assoc]
    rfl

/-- **What a tracker is that has seen all changes so far.** -/
structure Tracked (tools : DiffTools Path) (first now : TrackedPath Path → Option Text)
    (t : TurnDiffTracker Path) : Prop where
  valid : t.valid = true
  follows : Follows first now t
  coherent : Coherent tools t

theorem tracked_withEnvironmentDisplayRoots (roots : StrMap Path)
    (files : TrackedPath Path → Option Text) :
    Tracked tools files files (withEnvironmentDisplayRoots roots) where
  valid := rfl
  follows := NetChange.Tracks.refl files
  coherent := by
    refine ⟨fun _ => [], fun _ _ hlookup => ?_, fun _ _ hlookup => ?_, fun _ _ hlookup => ?_⟩
    · exact nomatch hlookup
    · exact nomatch hlookup
    · exact nomatch hlookup

theorem valid_captureBaseline (t : TurnDiffTracker Path) (path : TrackedPath Path)
    (held : Option Text) : (t.captureBaseline path held).valid = t.valid := by
  rw [captureBaseline]
  split
  · cases held with
    | none => rfl
    | some content => rfl
  · rfl

theorem valid_setOrigin (t : TurnDiffTracker Path) (path origin : TrackedPath Path) :
    (t.setOrigin path origin).valid = t.valid := by
  rw [setOrigin]
  split
  · rfl
  · rfl

theorem valid_applyMove (t : TurnDiffTracker Path) (source dest : TrackedPath Path)
    (overwritten : Option Text) (new : Text) :
    (t.applyMove source dest overwritten new).valid = t.valid := by
  rw [applyMove, valid_setOrigin, ← valid_captureBaseline t dest overwritten]
  rfl

theorem valid_applyChange (t : TurnDiffTracker Path) (environmentId : String)
    (c : AppliedPatchChange Path) : (t.applyChange environmentId c).valid = t.valid := by
  rw [applyChange]
  split
  · exact valid_captureBaseline _ _ _
  · rw [applyDelete]
    split
    · rfl
    · rfl
  · next movePath old overwritten new _ =>
    have hcaptured := valid_captureBaseline t ⟨environmentId, c.path⟩ (some old)
    cases movePath with
    | none => exact hcaptured
    | some dest => exact (valid_applyMove _ _ _ _ _).trans hcaptured

theorem Tracked.applyChanges (h : Tracked tools first now t)
    {changes : List (AppliedPatchChange Path)}
    (hchanges : ConsistentChanges now (changes.map (·.inEnvironment environmentId))) :
    Tracked tools first (fileChanges.replayAll (changes.map (·.inEnvironment environmentId)) now)
      (changes.foldl (applyChange environmentId) t) := by
  induction changes generalizing now t with
  | nil => exact h
  | cons c changes ih =>
    obtain ⟨hc, hrest⟩ := hchanges
    exact ih ⟨(valid_applyChange t environmentId c).trans h.valid, h.follows.applyChange hc,
      h.coherent.applyChange environmentId c⟩ hrest

/-- **One delta**: the tracker goes on as it should, and it shows the net change. -/
theorem Tracked.after_step (h : Tracked tools first now t) {s : TrackStep Path}
    (hexact : s.delta.exact = true) (hchanges : ConsistentChanges now s.changes) :
    Tracked tools first (fileChanges.replayAll s.changes now) (t.step tools s) ∧
      (∃ shown, IsNetDiff tools first (fileChanges.replayAll s.changes now)
        (t.step tools s) shown) ∧
      (t.step tools s).unifiedDiff = (refreshUnifiedDiff tools
        { t.step tools s with renderedDiffs := ∅ } s.iteration).unifiedDiff := by
  have happlied := h.applyChanges hchanges
  have hstep : t.step tools s = refreshUnifiedDiff tools
      (s.delta.changes.foldl (applyChange s.environmentId) t) s.iteration := by
    rw [TurnDiffTracker.step, trackDelta, if_neg, if_neg]
    · rw [hexact]
      exact nofun
    · rw [h.valid]
      exact nofun
  rw [hstep]
  exact ⟨⟨happlied.valid, happlied.follows, happlied.coherent.refreshUnifiedDiff s.iteration⟩,
    isNetDiff_refresh happlied.follows happlied.coherent s.iteration,
    unifiedDiff_from_scratch happlied.coherent s.iteration⟩

/-- The changes of a turn. -/
def changesOf (turn : List (TrackStep Path)) : List (AppliedPatchChange (TrackedPath Path)) :=
  turn.flatMap TrackStep.changes

/-- **A run of deltas.** -/
theorem Tracked.run (h : Tracked tools first now t) {turn : List (TrackStep Path)}
    (hexact : ∀ s ∈ turn, s.delta.exact = true)
    (hchanges : ConsistentChanges now (changesOf turn)) :
    Tracked tools first (fileChanges.replayAll (changesOf turn) now)
        (turn.foldl (step tools) t) := by
  induction turn generalizing now t with
  | nil => exact h
  | cons s turn ih =>
    rw [changesOf, List.flatMap_cons, consistentChanges_append] at hchanges
    have hnext := (h.after_step (hexact s List.mem_cons_self) hchanges.1).1
    have hrun := ih hnext (fun s' hs' => hexact s' (List.mem_cons_of_mem _ hs')) hchanges.2
    rw [changesOf, List.flatMap_cons, ChangeLog.replayAll, List.foldl_append]
    exact hrun

/-- A file `a` with an `x`. -/
def demoFiles (path : TrackedPath String) : Option Text :=
  if path = ⟨"", "a"⟩ then some ['x'] else none

/-- The file is moved to `b` and changed, and another one is added in its place. -/
def demoTurn : List (TrackStep String) :=
  [⟨⟨id, fun l => .refl l⟩, "", [⟨"a", .update (some "b") ['x'] none ['y']⟩], true⟩,
    ⟨⟨id, fun l => .refl l⟩, "", [⟨"a", .add ['z'] none⟩], true⟩]

theorem consistentChanges_demoTurn : ConsistentChanges demoFiles (changesOf demoTurn) := by
  refine ⟨⟨rfl, ?_⟩, ?_, trivial⟩
  · intro dest hdest
    obtain rfl := Option.some.inj hdest
    rfl
  · rfl

/-- Tools that show a path as it is and new contents as their diff. -/
def demoTools : DiffTools String :=
  ⟨fun path _ => some path.toList, String.toList, id, fun _ _ _ new => new⟩

end TurnDiffTracker

end Rivloom.ApplyPatch
