import Mathlib.Data.List.Perm.Basic
import Rivloom.Sandbox.FullDisk

/-!
# The order of entries

A policy lists its entries in some order, and the order should not matter. Most of the
answers are maxima or ask for the existence of an entry, and depend only on the set of
entries (`Rivloom.Sandbox.resolveAccess_congr`, `Rivloom.Sandbox.hasFullDiskWriteAccess_perm`).
The metadata of writable entries is different: it is looked up in the *first* `write` entry
that has protected metadata above the path
(`Rivloom.Sandbox.FileSystemSandboxPolicy.metadataChildOfWritableRoot`).

Which entry is found matters little, as long as the path is in the metadata of one entry
only. Of two `write` entries above a path the deeper one lies inside the metadata of the
other, and so counts as an explicit grant for it; only the *deepest* `write` entry above the
path protects anything (`Rivloom.Sandbox.Guarded`). If that one lies itself in the metadata
of another `write` entry, then the answer depends on which of them comes first
(`Rivloom.Sandbox.Contested`), and this is the only way
(`Rivloom.Sandbox.decisions_ignore_order_iff`).
-/

namespace Rivloom.Sandbox

open AbsolutePathBuf (fromAbsolutePath)

variable {name : String} {root shorter path : AbsolutePathBuf}

open FileSystemSandboxPolicy

/-! ### Sets of entries -/

/-- A path is in the protected metadata right below a directory. -/
def InMetadata (root : AbsolutePathBuf) (name : String) (path : AbsolutePathBuf) : Prop :=
  ∃ (segment : Segment) (rest : List Segment), path.segments = root.segments ++ segment :: rest ∧
    segment.val = name ∧ name ∈ protectedMetadataPathNames

/-- The directories that a set of entries lets be written. -/
def Grants (entries : Set ResolvedFileSystemEntry) (root : AbsolutePathBuf) : Prop :=
  ∃ entry ∈ entries, entry.path = root ∧ entry.access.canWrite = true

/-- **Guarded metadata**: a path in the metadata of the deepest `write` entry above it. -/
structure Guarded (entries : Set ResolvedFileSystemEntry) (target inner : AbsolutePathBuf)
    (name : String) : Prop where
  grants : Grants entries inner
  inside : InMetadata inner name target
  deepest : ∀ root, Grants entries root → target.startsWith root = true →
    root.segments.length ≤ inner.segments.length

/-- **Contested metadata**: the deepest `write` entry, which guards the path, lies in the
metadata of another `write` entry. -/
def Contested (entries : Set ResolvedFileSystemEntry) (target : AbsolutePathBuf) : Prop :=
  ∃ inner name outer outerName, Guarded entries target inner name ∧ Grants entries outer ∧
    InMetadata outer outerName inner

theorem InMetadata.startsWith (h : InMetadata root name path) : path.startsWith root = true := by
  obtain ⟨segment, rest, hpath, -, -⟩ := h
  exact AbsolutePathBuf.startsWith_iff.mpr ⟨segment :: rest, hpath.symm⟩

/-- Metadata above a path is above every path on the way to it that is long enough. -/
theorem InMetadata.of_longer (h : InMetadata root name path)
    (hshorter : path.startsWith shorter = true)
    (hlength : root.segments.length < shorter.segments.length) : InMetadata root name shorter := by
  obtain ⟨segment, rest, hpath, hsegment, hname⟩ := h
  have hchild : root.segments ++ [segment] <+: path.segments := ⟨rest, by rw [hpath]; simp⟩
  obtain ⟨more, hmore⟩ := List.prefix_of_prefix_length_le hchild
    (AbsolutePathBuf.startsWith_iff.mp hshorter)
    (by rw [List.length_append, List.length_singleton]; omega)
  refine ⟨segment, more, ?_, hsegment, hname⟩
  rw [← hmore]
  simp

theorem InMetadata.extend (h : InMetadata root name shorter)
    (hpath : path.startsWith shorter = true) : InMetadata root name path := by
  obtain ⟨segment, rest, hshorter, hsegment, hname⟩ := h
  obtain ⟨tail, htail⟩ := AbsolutePathBuf.startsWith_iff.mp hpath
  refine ⟨segment, rest ++ tail, ?_, hsegment, hname⟩
  rw [← htail, hshorter]
  simp

theorem InMetadata.name_eq {name other : String} (h : InMetadata root name path)
    (hother : InMetadata root other path) : name = other := by
  obtain ⟨segment, rest, hpath, rfl, -⟩ := h
  obtain ⟨second, more, hpathOther, rfl, -⟩ := hother
  have heq := List.append_cancel_left (hpath.symm.trans hpathOther)
  rw [(List.cons.inj heq).1]

/-! ### What the lookup finds -/

section

variable {Uri : Type} [PathUri Uri] {host : SandboxHost} {policy : FileSystemSandboxPolicy Uri}
  {cwd : Option AbsolutePathBuf} {target : AbsolutePathBuf} {other : FileSystemSandboxPolicy Uri}
  {rest : List (FileSystemSandboxEntry Uri)} {root : AbsolutePathBuf}
  {raw : FileSystemSandboxEntry Uri} {path base : String} {inner : AbsolutePathBuf}
  {segment : Segment}

/-- The entries of a policy that resolve, without their order. -/
def FileSystemSandboxPolicy.resolvedSet (host : SandboxHost)
    (policy : FileSystemSandboxPolicy Uri) (cwd : Option AbsolutePathBuf) :
    Set ResolvedFileSystemEntry :=
  {entry | entry ∈ policy.resolvedEntriesWithCwd host cwd}

/-- An explicit grant for the metadata of an entry is a deeper `write` entry above the path. -/
theorem hasExplicitWriteEntry_iff_deeper {rest : List Segment}
    (htarget : target.segments = root.segments ++ segment :: rest) :
    policy.hasExplicitWriteEntryForMetadataPath host cwd ⟨root.segments ++ [segment]⟩ target =
        true ↔
      ∃ deeper, Grants (policy.resolvedSet host cwd) deeper ∧
        target.startsWith deeper = true ∧ root.segments.length < deeper.segments.length := by
  rw [hasExplicitWriteEntry_iff]
  constructor
  · rintro ⟨entry, hentry, hwrite, hstarts, hinside⟩
    refine ⟨entry.path, ⟨entry, hentry, rfl, hwrite⟩, hstarts, ?_⟩
    have hlength := (AbsolutePathBuf.startsWith_iff.mp hinside).length_le
    rw [List.length_append, List.length_singleton] at hlength
    exact hlength
  · rintro ⟨_, ⟨entry, hentry, rfl, hwrite⟩, hstarts, hdeeper⟩
    refine ⟨entry, hentry, hwrite, hstarts, AbsolutePathBuf.startsWith_iff.mpr ?_⟩
    have hchild : root.segments ++ [segment] <+: target.segments := ⟨rest, by rw [htarget]; simp⟩
    refine List.prefix_of_prefix_length_le hchild (AbsolutePathBuf.startsWith_iff.mp hstarts) ?_
    rw [List.length_append, List.length_singleton]
    exact hdeeper

/-- The lookup protects a path under a name: it finds metadata of that name, for which no
`write` entry is an explicit grant. -/
def Protects (host : SandboxHost) (policy : FileSystemSandboxPolicy Uri)
    (cwd : Option AbsolutePathBuf) (target : AbsolutePathBuf) (name : String) : Prop :=
  ∃ child, policy.metadataChildOfWritableRoot host cwd target = some (child, name) ∧
    policy.hasExplicitWriteEntryForMetadataPath host cwd child target = false

theorem exists_grant_of_metadataChild {child : AbsolutePathBuf}
    (h : policy.metadataChildOfWritableRoot host cwd target = some (child, name)) :
    ∃ root segment rest, Grants (policy.resolvedSet host cwd) root ∧
      target.segments = root.segments ++ segment :: rest ∧ segment.val = name ∧
      name ∈ protectedMetadataPathNames ∧ child = ⟨root.segments ++ [segment]⟩ := by
  unfold metadataChildOfWritableRoot at h
  obtain ⟨entry, hentry, hfound⟩ := List.exists_of_findSome?_eq_some h
  obtain ⟨hmem, hwrite⟩ := List.mem_filter.mp hentry
  obtain ⟨segment, rest, htarget, hsegment, hname, hchild⟩ := metadataChildOf_eq_some.mp hfound
  exact ⟨entry.path, segment, rest, ⟨entry, hmem, rfl, hwrite⟩, htarget, hsegment, hname, hchild⟩

/-- What is protected is guarded: no `write` entry above the path is deeper. -/
theorem Protects.guarded (h : Protects host policy cwd target name) :
    ∃ inner, Guarded (policy.resolvedSet host cwd) target inner name := by
  obtain ⟨child, hchild, hexplicit⟩ := h
  obtain ⟨root, segment, rest, hgrants, htarget, hsegment, hname, rfl⟩ :=
    exists_grant_of_metadataChild hchild
  refine ⟨root, hgrants, ⟨segment, rest, htarget, hsegment, hname⟩, ?_⟩
  intro other hother hstarts
  by_contra hdeeper
  rw [(hasExplicitWriteEntry_iff_deeper htarget).mpr
    ⟨other, hother, hstarts, Nat.lt_of_not_le hdeeper⟩] at hexplicit
  cases hexplicit

/-- If the first `write` entry with metadata above the path is the one that guards it, then the
path is protected. -/
theorem protects_of_guarded (hguarded : Guarded (policy.resolvedSet host cwd) target inner name)
    (hfirst : ∀ root other, Grants (policy.resolvedSet host cwd) root →
      InMetadata root other target → root = inner) : Protects host policy cwd target name := by
  obtain ⟨entry, hentry, rfl, hwrite⟩ := hguarded.grants
  obtain ⟨segment, rest, htarget, hsegment, hname⟩ := hguarded.inside
  cases hfound : policy.metadataChildOfWritableRoot host cwd target with
  | none =>
    unfold metadataChildOfWritableRoot at hfound
    have hown := List.findSome?_eq_none_iff.mp hfound entry
      (List.mem_filter.mpr ⟨hentry, hwrite⟩)
    rw [metadataChildOf_eq_some.mpr ⟨segment, rest, htarget, hsegment, hname, rfl⟩] at hown
    cases hown
  | some found =>
    obtain ⟨child, other⟩ := found
    obtain ⟨root, second, more, hgrants, hrootTarget, hsecond, hother, rfl⟩ :=
      exists_grant_of_metadataChild hfound
    have hinside : InMetadata root other target := ⟨second, more, hrootTarget, hsecond, hother⟩
    obtain rfl := hfirst root other hgrants hinside
    obtain rfl := hguarded.inside.name_eq hinside
    refine ⟨_, hfound, Bool.eq_false_iff.mpr ?_⟩
    intro hexplicit
    obtain ⟨deeper, hdeeper, hstarts, hlength⟩ :=
      (hasExplicitWriteEntry_iff_deeper hrootTarget).mp hexplicit
    exact absurd (hguarded.deepest deeper hdeeper hstarts) (Nat.not_le_of_lt hlength)

/-- **Without a contest the order does not matter**: a path is protected exactly when it is
guarded. -/
theorem protects_iff_guarded (h : ¬Contested (policy.resolvedSet host cwd) target) :
    Protects host policy cwd target name ↔
      ∃ inner, Guarded (policy.resolvedSet host cwd) target inner name := by
  refine ⟨Protects.guarded, ?_⟩
  rintro ⟨inner, hguarded⟩
  refine protects_of_guarded hguarded ?_
  intro root other hgrants hinside
  have hle := hguarded.deepest root hgrants hinside.startsWith
  rcases Nat.lt_or_eq_of_le hle with hlt | heq
  · -- a shallower entry would have the guarding one in its metadata
    exact absurd ⟨inner, name, root, other, hguarded, hgrants,
      hinside.of_longer hguarded.inside.startsWith hlt⟩ h
  · exact path_eq_of_length_eq hinside.startsWith hguarded.inside.startsWith heq

/-! ### The answers -/

theorem isMetadataWriteDenied_iff_protects (hkind : policy.kind = .restricted) :
    policy.isMetadataWriteDenied host cwd target = true ↔
      ∃ name, Protects host policy cwd target name := by
  rw [isMetadataWriteDenied_iff hkind]
  exact exists_comm

theorem canWritePathWithCwd_eq :
    policy.canWritePathWithCwd host cwd target =
      ((policy.resolveAccessWithCwd host cwd target).canWrite &&
        (policy.hasFullDiskWriteAccess host || !policy.isMetadataWriteDenied host cwd target)) := by
  unfold canWritePathWithCwd
  cases (policy.resolveAccessWithCwd host cwd target).canWrite <;>
    cases policy.hasFullDiskWriteAccess host <;> rfl

theorem resolveAccess_congr (hkind : policy.kind = .restricted) (hother : other.kind = .restricted)
    (hset : other.resolvedSet host cwd = policy.resolvedSet host cwd) (path : AbsolutePathBuf) :
    other.resolveAccessWithCwd host cwd path = policy.resolveAccessWithCwd host cwd path := by
  have hmem : ∀ entry, entry ∈ other.resolvedEntriesWithCwd host cwd ↔
      entry ∈ policy.resolvedEntriesWithCwd host cwd := fun entry => Set.ext_iff.mp hset entry
  rcases resolveAccess_cases host cwd hkind path with
    ⟨hnone, hdeny⟩ | ⟨entry, hentry, hstarts, haccess, hmax⟩ <;>
  rcases resolveAccess_cases host cwd hother path with
    ⟨hnoneOther, hdenyOther⟩ | ⟨second, hsecond, hstartsOther, haccessOther, hmaxOther⟩
  · rw [hdeny, hdenyOther]
  · rw [hnone second ((hmem second).mp hsecond)] at hstartsOther
    cases hstartsOther
  · rw [hnoneOther entry ((hmem entry).mpr hentry)] at hstarts
    cases hstarts
  · -- each of the two deciding entries bounds the other
    have hle := hmax second ((hmem second).mp hsecond) hstartsOther
    have hge := hmaxOther entry ((hmem entry).mpr hentry) hstarts
    have hlength := le_antisymm (length_le_of_precedence_le hle) (length_le_of_precedence_le hge)
    have hrank := le_antisymm (rank_le_of_precedence_le hle hlength)
      (rank_le_of_precedence_le hge hlength.symm)
    rw [haccess, haccessOther]
    revert hrank
    cases second.access <;> cases entry.access <;> simp [FileSystemAccessMode.rank]

theorem resolvedSet_perm (host : SandboxHost) (cwd : Option AbsolutePathBuf)
    (hperm : other.entries.Perm policy.entries) :
    other.resolvedSet host cwd = policy.resolvedSet host cwd := by
  ext entry
  exact (hperm.filterMap _).mem_iff

theorem hasFullDiskWriteAccess_perm (hkind : other.kind = policy.kind)
    (hperm : other.entries.Perm policy.entries) :
    other.hasFullDiskWriteAccess host = policy.hasFullDiskWriteAccess host := by
  have hoverride : other.hasSameTargetWriteOverride host =
      policy.hasSameTargetWriteOverride host := by
    funext entry
    exact hperm.any_eq
  have hnarrows : other.narrowsWrite host = policy.narrowsWrite host := by
    funext entry
    unfold narrowsWrite
    rw [hoverride]
  unfold hasFullDiskWriteAccess hasRootAccess hasWriteNarrowingEntries
  rw [hkind, hnarrows, hperm.any_eq, hperm.any_eq]

/-- Without a contest the lookup protects the same paths in every order. -/
theorem protects_congr (hset : other.resolvedSet host cwd = policy.resolvedSet host cwd)
    (hclear : ¬Contested (policy.resolvedSet host cwd) target) :
    Protects host other cwd target name ↔ Protects host policy cwd target name := by
  rw [protects_iff_guarded hclear, protects_iff_guarded (hset ▸ hclear), hset]

theorem canWritePathWithCwd_congr (hkind : policy.kind = .restricted)
    (hother : other.kind = .restricted)
    (hset : other.resolvedSet host cwd = policy.resolvedSet host cwd)
    (hfull : other.hasFullDiskWriteAccess host = policy.hasFullDiskWriteAccess host)
    (hclear : ¬Contested (policy.resolvedSet host cwd) target) :
    other.canWritePathWithCwd host cwd target = policy.canWritePathWithCwd host cwd target := by
  have hdenied : other.isMetadataWriteDenied host cwd target =
      policy.isMetadataWriteDenied host cwd target := by
    rw [Bool.eq_iff_iff, isMetadataWriteDenied_iff_protects hkind,
      isMetadataWriteDenied_iff_protects hother]
    exact exists_congr fun name => protects_congr hset hclear
  rw [canWritePathWithCwd_eq, canWritePathWithCwd_eq, hfull, hdenied,
    resolveAccess_congr hkind hother hset target]

/-- Under full write access a path that may not be written lies below `/tmp`, and only an entry
for the root is a `write` entry above it. -/
theorem grant_eq_rootDir_of_full [LawfulPathUri Uri] (hkind : policy.kind = .restricted)
    (hfull : policy.hasFullDiskWriteAccess host = true)
    (h : (policy.resolveAccessWithCwd host cwd target).canWrite = false)
    (hgrants : Grants (policy.resolvedSet host cwd) root) (hroot : target.startsWith root = true) :
    root = AbsolutePathBuf.root ∧ target.startsWith slashTmp = true := by
  obtain ⟨-, hkept⟩ := fullDiskWrite_parts hkind hfull
  obtain ⟨grant, hgrant, rfl, hwrite⟩ := hgrants
  rcases resolveAccess_cases host cwd hkind target with
    ⟨hnone, -⟩ | ⟨entry, hentry, hstarts, haccess, hmax⟩
  · rw [hnone grant hgrant] at hroot
    cases hroot
  · rw [haccess] at h
    obtain ⟨raw, hraw, hpath, hrawAccess⟩ := mem_resolvedEntriesWithCwd.mp hentry
    have hle := hmax grant hgrant hroot
    -- a `write` entry above the path is strictly shallower than a `read` entry that decides
    have hshallower : raw.access.rank < FileSystemAccessMode.write.rank →
        grant.path.segments.length < entry.path.segments.length := by
      intro hread
      refine lt_of_le_of_ne (length_le_of_precedence_le hle) ?_
      intro hlength
      rw [hrawAccess, ← canWrite_iff.mp hwrite] at hread
      exact not_precedence_le grant entry (path_eq_of_length_eq hroot hstarts hlength) hread hle
    have hnotRoot : raw.access.rank < FileSystemAccessMode.write.rank →
        entry.path ≠ AbsolutePathBuf.root := by
      intro hread hpathRoot
      have hlength := hshallower hread
      rw [hpathRoot] at hlength
      exact absurd hlength (Nat.not_lt_zero _)
    rcases override_of_not_narrows (hrawAccess ▸ h) (hkept raw hraw) hpath with
      hoverride | ⟨hpathRoot, hread⟩
    · obtain ⟨hread, hoverriding | ⟨htmp, -⟩ | hpathRoot⟩ :=
        exists_write_of_override hoverride hpath
      · have houtranked := hmax ⟨entry.path, .write⟩ hoverriding hstarts
        rw [hrawAccess] at hread
        exact absurd houtranked (not_precedence_le ⟨entry.path, .write⟩ entry rfl hread)
      · have hlength := hshallower hread
        rw [htmp] at hlength hstarts
        have hnil : grant.path.segments = [] :=
          List.eq_nil_of_length_eq_zero (Nat.lt_one_iff.mp hlength)
        exact ⟨congrArg AbsolutePathBuf.mk hnil, hstarts⟩
      · exact absurd hpathRoot (hnotRoot hread)
    · exact absurd hpathRoot (hnotRoot hread)

/-- Under full write access the lookup protects no path that may not be written. -/
theorem not_protects_of_full [LawfulPathUri Uri] (hkind : policy.kind = .restricted)
    (hfull : policy.hasFullDiskWriteAccess host = true)
    (h : (policy.resolveAccessWithCwd host cwd target).canWrite = false) :
    ¬Protects host policy cwd target name := by
  rintro ⟨child, hchild, -⟩
  obtain ⟨root, segment, rest, hgrants, htarget, rfl, hname, -⟩ :=
    exists_grant_of_metadataChild hchild
  have hstarts : target.startsWith root = true :=
    AbsolutePathBuf.startsWith_iff.mpr ⟨segment :: rest, htarget.symm⟩
  obtain ⟨rfl, htmp⟩ := grant_eq_rootDir_of_full hkind hfull h hgrants hstarts
  -- right below the root the path goes through `tmp`, which is no metadata
  obtain ⟨tail, htail⟩ := AbsolutePathBuf.startsWith_iff.mp htmp
  have hcons : (⟨"tmp", by decide⟩ : Segment) :: tail = segment :: rest := htail.trans htarget
  rw [← (List.cons.inj hcons).1] at hname
  revert hname
  decide

/-! ### Paths as they are given -/

section Texts

variable {path base : String}

theorem canReadTextWithCwd_eq (hkind : policy.kind = .restricted)
    (htarget : resolveCandidatePath host.toPathHost path base = some target) :
    policy.canReadTextWithCwd host path base =
      policy.canReadPathWithCwd host
        (fromAbsolutePath host.toPathHost base) target := by
  unfold canReadTextWithCwd resolveTextAccessWithCwd canReadPathWithCwd
  rw [hkind, htarget]

/-- **What is forbidden is what the lookup protects** and may not be written. -/
theorem forbiddenAgentMetadataWrite_eq_some (hkind : policy.kind = .restricted)
    (htarget : resolveCandidatePath host.toPathHost path base = some target) :
    policy.forbiddenAgentMetadataWrite host path base = some name ↔
      Protects host policy (fromAbsolutePath host.toPathHost base) target name ∧
        policy.canWritePathWithCwd host
          (fromAbsolutePath host.toPathHost base) target = false := by
  unfold forbiddenAgentMetadataWrite Protects
  rw [if_neg (by simp [hkind])]
  dsimp only
  rw [htarget]
  dsimp only
  split
  · next hnone => simp [hnone]
  · next child found hfound =>
    rw [hfound]
    split
    · next hexplicit =>
      constructor
      · intro h
        cases h
      · rintro ⟨⟨_, heq, hno⟩, -⟩
        cases heq
        rw [hexplicit] at hno
        cases hno
    · next hexplicit =>
      split
      · next hcan =>
        constructor
        · intro h
          cases h
          exact ⟨⟨child, rfl, by simpa using hexplicit⟩, by simpa using hcan⟩
        · rintro ⟨⟨_, heq, -⟩, -⟩
          cases heq
          rfl
      · next hcan =>
        constructor
        · intro h
          cases h
        · rintro ⟨-, hno⟩
          exact absurd (by simpa using hno) hcan

/-- Where the path cannot be resolved nothing may be read or written, and nothing is metadata. -/
theorem decisions_of_unresolved (hkind : policy.kind = .restricted)
    (htarget : resolveCandidatePath host.toPathHost path base = none) :
    policy.canReadTextWithCwd host path base = false ∧
      policy.canWriteTextWithCwd host path base = false ∧
      policy.forbiddenAgentMetadataWrite host path base = none := by
  unfold canReadTextWithCwd canWriteTextWithCwd resolveTextAccessWithCwd forbiddenAgentMetadataWrite
  rw [hkind, htarget]
  exact ⟨rfl, rfl, rfl⟩

end Texts

/-! ### Permutations -/

/-- The first entry of a policy, if it is a `write` entry with metadata above the path, is the
one whose metadata is found. -/
theorem metadataChild_of_head (hentries : policy.entries = raw :: rest)
    (hraw : resolveEntryPath host raw.path cwd = some root) (hwrite : raw.access.canWrite = true)
    {more : List Segment} (htarget : target.segments = root.segments ++ segment :: more)
    (hname : segment.val ∈ protectedMetadataPathNames) :
    policy.metadataChildOfWritableRoot host cwd target =
      some (⟨root.segments ++ [segment]⟩, segment.val) := by
  have hresolved : policy.resolvedEntriesWithCwd host cwd =
      ⟨root, raw.access⟩ :: rest.filterMap fun entry =>
        (resolveEntryPath host entry.path cwd).map fun path => ⟨path, entry.access⟩ := by
    unfold resolvedEntriesWithCwd
    rw [hentries, List.filterMap_cons, hraw]
    rfl
  have hfound : metadataChildOf host target ⟨root, raw.access⟩ =
      some (⟨root.segments ++ [segment]⟩, segment.val) :=
    metadataChildOf_eq_some.mpr ⟨segment, more, htarget, rfl, hname, rfl⟩
  unfold metadataChildOfWritableRoot
  rw [hresolved, List.filter_cons]
  simp only [hwrite, if_true, List.findSome?_cons, hfound]

theorem exists_perm_with_head (hgrants : Grants (policy.resolvedSet host cwd) root) :
    ∃ (raw : FileSystemSandboxEntry Uri) (rest : List (FileSystemSandboxEntry Uri)),
      (raw :: rest).Perm policy.entries ∧ resolveEntryPath host raw.path cwd = some root ∧
        raw.access.canWrite = true := by
  obtain ⟨entry, hentry, rfl, hwrite⟩ := hgrants
  obtain ⟨raw, hraw, hpath, haccess⟩ := mem_resolvedEntriesWithCwd.mp hentry
  obtain ⟨front, back, hsplit⟩ := List.append_of_mem hraw
  refine ⟨raw, front ++ back, ?_, hpath, haccess ▸ hwrite⟩
  rw [hsplit]
  exact List.perm_middle.symm

/-- With the outer entry in front, nothing is forbidden in contested metadata: the inner entry
counts as an explicit grant. -/
theorem forbidden_of_outer_first (hkind : policy.kind = .restricted)
    (htarget : resolveCandidatePath host.toPathHost path base = some target)
    (hentries : policy.entries = raw :: rest) {outer inner : AbsolutePathBuf}
    (hraw : resolveEntryPath host raw.path
      (fromAbsolutePath host.toPathHost base) = some outer)
    (hwrite : raw.access.canWrite = true) (hnested : InMetadata outer name inner)
    (hinner : target.startsWith inner = true)
    (hgrants : Grants (policy.resolvedSet host
      (fromAbsolutePath host.toPathHost base)) inner) :
    policy.forbiddenAgentMetadataWrite host path base = none := by
  obtain ⟨segment, more, hsegments, rfl, hname⟩ := hnested.extend hinner
  refine Option.eq_none_iff_forall_ne_some.mpr ?_
  intro found hfound
  obtain ⟨⟨child, hchild, hexplicit⟩, -⟩ :=
    (forbiddenAgentMetadataWrite_eq_some hkind htarget).mp hfound
  rw [metadataChild_of_head hentries hraw hwrite hsegments hname] at hchild
  cases hchild
  have hlength : outer.segments.length < inner.segments.length := by
    obtain ⟨_, _, hinnerSegments, -, -⟩ := hnested
    rw [hinnerSegments, List.length_append, List.length_cons]
    omega
  rw [(hasExplicitWriteEntry_iff_deeper hsegments).mpr ⟨inner, hgrants, hinner, hlength⟩]
    at hexplicit
  cases hexplicit

theorem forbidden_of_guarding_first (hkind : policy.kind = .restricted)
    (hfull : policy.hasFullDiskWriteAccess host = false)
    (htarget : resolveCandidatePath host.toPathHost path base = some target)
    (hentries : policy.entries = raw :: rest)
    (hraw : resolveEntryPath host raw.path
      (fromAbsolutePath host.toPathHost base) = some inner)
    (hwrite : raw.access.canWrite = true)
    (hguarded : Guarded (policy.resolvedSet host
      (fromAbsolutePath host.toPathHost base)) target inner name) :
    policy.forbiddenAgentMetadataWrite host path base = some name := by
  obtain ⟨segment, more, hsegments, rfl, hname⟩ := hguarded.inside
  have hprotects : Protects host policy
      (fromAbsolutePath host.toPathHost base) target segment.val := by
    refine ⟨_, metadataChild_of_head hentries hraw hwrite hsegments hname,
      Bool.eq_false_iff.mpr ?_⟩
    intro hexplicit
    obtain ⟨deeper, hdeeper, hstarts, hlength⟩ :=
      (hasExplicitWriteEntry_iff_deeper hsegments).mp hexplicit
    exact absurd (hguarded.deepest deeper hdeeper hstarts) (Nat.not_le_of_lt hlength)
  refine (forbiddenAgentMetadataWrite_eq_some hkind htarget).mpr ⟨hprotects, ?_⟩
  rw [canWritePathWithCwd_eq, hfull,
    (isMetadataWriteDenied_iff_protects hkind).mpr ⟨segment.val, hprotects⟩]
  exact Bool.and_false _

theorem forbidden_of_full [LawfulPathUri Uri] (hkind : policy.kind = .restricted)
    (hfull : policy.hasFullDiskWriteAccess host = true)
    (htarget : resolveCandidatePath host.toPathHost path base = some target) :
    policy.forbiddenAgentMetadataWrite host path base = none := by
  refine Option.eq_none_iff_forall_ne_some.mpr ?_
  intro name hname
  obtain ⟨hprotects, hcannot⟩ := (forbiddenAgentMetadataWrite_eq_some hkind htarget).mp hname
  rw [canWritePathWithCwd_eq, hfull, Bool.true_or, Bool.and_true] at hcannot
  exact not_protects_of_full hkind hfull hcannot hprotects

/-- **The order of entries** does not matter, unless the policy restricts writing and the path
is in contested metadata. -/
theorem decisions_ignore_order_iff [LawfulPathUri Uri] (host : SandboxHost)
    (policy : FileSystemSandboxPolicy Uri) (hkind : policy.kind = .restricted)
    (path base : String) :
    (∀ other : FileSystemSandboxPolicy Uri, other.kind = .restricted →
      other.entries.Perm policy.entries →
        other.canReadTextWithCwd host path base = policy.canReadTextWithCwd host path base ∧
        other.canWriteTextWithCwd host path base = policy.canWriteTextWithCwd host path base ∧
        other.forbiddenAgentMetadataWrite host path base =
          policy.forbiddenAgentMetadataWrite host path base) ↔
      (policy.hasFullDiskWriteAccess host = false →
        ∀ target, resolveCandidatePath host.toPathHost path base = some target →
          ¬Contested
            (policy.resolvedSet host (fromAbsolutePath host.toPathHost base))
            target) := by
  constructor
  · rintro hall hfull target htarget
      ⟨inner, name, outer, outerName, hguarded, houter, hnested⟩
    obtain ⟨rawOuter, restOuter, hpermOuter, hrawOuter, hwriteOuter⟩ :=
      exists_perm_with_head houter
    obtain ⟨rawInner, restInner, hpermInner, hrawInner, hwriteInner⟩ :=
      exists_perm_with_head hguarded.grants
    -- the two orders give different answers, so one of them differs from the policy's
    have hnone : (⟨.restricted, rawOuter :: restOuter⟩ :
        FileSystemSandboxPolicy Uri).forbiddenAgentMetadataWrite host path base = none :=
      forbidden_of_outer_first rfl htarget rfl hrawOuter hwriteOuter hnested
        hguarded.inside.startsWith (by rw [resolvedSet_perm _ _ hpermOuter]; exact hguarded.grants)
    have hsome : (⟨.restricted, rawInner :: restInner⟩ :
        FileSystemSandboxPolicy Uri).forbiddenAgentMetadataWrite host path base = some name :=
      forbidden_of_guarding_first rfl
        ((hasFullDiskWriteAccess_perm hkind.symm hpermInner).trans hfull) htarget rfl hrawInner
        hwriteInner (by rw [resolvedSet_perm _ _ hpermInner]; exact hguarded)
    rw [(hall _ rfl hpermOuter).2.2] at hnone
    rw [(hall _ rfl hpermInner).2.2, hnone] at hsome
    cases hsome
  · intro h other hother hperm
    cases htarget : resolveCandidatePath host.toPathHost path base with
    | none =>
      obtain ⟨hread, hwrite, hforbidden⟩ := decisions_of_unresolved hkind htarget
      obtain ⟨hreadOther, hwriteOther, hforbiddenOther⟩ := decisions_of_unresolved hother htarget
      exact ⟨hreadOther.trans hread.symm, hwriteOther.trans hwrite.symm,
        hforbiddenOther.trans hforbidden.symm⟩
    | some target =>
      have hset := resolvedSet_perm host
        (fromAbsolutePath host.toPathHost base) hperm
      have hfullEq : other.hasFullDiskWriteAccess host = policy.hasFullDiskWriteAccess host :=
        hasFullDiskWriteAccess_perm (hother.trans hkind.symm) hperm
      have haccess := resolveAccess_congr hkind hother hset target
      rw [canReadTextWithCwd_eq hkind htarget, canReadTextWithCwd_eq hother htarget,
        canWriteTextWithCwd_eq hkind htarget, canWriteTextWithCwd_eq hother htarget]
      refine ⟨congrArg FileSystemAccessMode.canRead haccess, ?_⟩
      cases hfull : policy.hasFullDiskWriteAccess host with
      | true =>
        rw [hfull] at hfullEq
        refine ⟨?_, (forbidden_of_full hother hfullEq htarget).trans
          (forbidden_of_full hkind hfull htarget).symm⟩
        rw [canWritePathWithCwd_eq, canWritePathWithCwd_eq, haccess, hfull, hfullEq,
          Bool.true_or, Bool.true_or]
      | false =>
        have hclear := h hfull target htarget
        have hwrite := canWritePathWithCwd_congr hkind hother hset hfullEq hclear
        refine ⟨hwrite, Option.ext ?_⟩
        intro name
        rw [forbiddenAgentMetadataWrite_eq_some hkind htarget,
          forbiddenAgentMetadataWrite_eq_some hother htarget, protects_congr hset hclear, hwrite]

end

/-! ### A root in the metadata of a root -/

/-- `/work/.git/modules`. -/
def modulesDir : AbsolutePathBuf :=
  ⟨workDir.segments ++ [⟨".git", by decide⟩, ⟨"modules", by decide⟩]⟩

/-- `/work` may be written, and so may a directory in its metadata. -/
def metadataPolicy : FileSystemSandboxPolicy AbsolutePathBuf where
  kind := .restricted
  entries := [⟨.path workDir, .write⟩, ⟨.path modulesDir, .write⟩]

/-- The same entries in the other order. -/
def reversedMetadataPolicy : FileSystemSandboxPolicy AbsolutePathBuf where
  kind := .restricted
  entries := [⟨.path modulesDir, .write⟩, ⟨.path workDir, .write⟩]

/-- For `/work/.git` both orders of that policy give the same answers if nothing is contested. -/
theorem decisions_ignore_order_metadata :
    (∀ other : FileSystemSandboxPolicy AbsolutePathBuf, other.kind = .restricted →
      other.entries.Perm metadataPolicy.entries →
        other.canReadTextWithCwd bareHost "/work/.git" "/work" =
          metadataPolicy.canReadTextWithCwd bareHost "/work/.git" "/work" ∧
        other.canWriteTextWithCwd bareHost "/work/.git" "/work" =
          metadataPolicy.canWriteTextWithCwd bareHost "/work/.git" "/work" ∧
        other.forbiddenAgentMetadataWrite bareHost "/work/.git" "/work" =
          metadataPolicy.forbiddenAgentMetadataWrite bareHost "/work/.git" "/work") ↔
      (metadataPolicy.hasFullDiskWriteAccess bareHost = false →
        ∀ target, resolveCandidatePath bareHost.toPathHost "/work/.git" "/work" = some target →
          ¬Contested (metadataPolicy.resolvedSet bareHost
            (fromAbsolutePath bareHost.toPathHost "/work")) target) :=
  decisions_ignore_order_iff bareHost metadataPolicy rfl "/work/.git" "/work"

/-- **Two orders, two answers**: metadata of `/work/.git/modules` may be written if the entry
for `/work` comes first, and may not if it comes last. -/
theorem order_decides_contested_metadata :
    metadataPolicy.kind = .restricted ∧ reversedMetadataPolicy.kind = .restricted ∧
      reversedMetadataPolicy.entries.Perm metadataPolicy.entries ∧
      metadataPolicy.canWriteTextWithCwd bareHost "/work/.git/modules/.codex" "/work" = true ∧
      reversedMetadataPolicy.canWriteTextWithCwd bareHost "/work/.git/modules/.codex" "/work" =
        false ∧
      metadataPolicy.forbiddenAgentMetadataWrite bareHost "/work/.git/modules/.codex" "/work" =
        none ∧
      reversedMetadataPolicy.forbiddenAgentMetadataWrite bareHost "/work/.git/modules/.codex"
        "/work" = some ".codex" :=
  ⟨rfl, rfl, List.Perm.swap _ _ _, by decide +kernel, by decide +kernel, by decide +kernel,
    by decide +kernel⟩

end Rivloom.Sandbox
