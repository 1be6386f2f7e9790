import Rivloom.Sandbox.FileSystemPolicy

/-!
# What a writable root lets through

A platform sandbox is given roots with carve-outs; the policy resolves the most specific
entry. The two are compared path by path, on a host without symbolic links
(`Rivloom.Sandbox.SandboxHost.NoSymlinks`).

*Explicit* entries agree: if a root accepts a path, then the entry that decides the path
is a `write` entry (`Rivloom.Sandbox.resolveAccess_of_accepted`). A more specific entry
that is not would lie strictly below the root, would not be writable itself, and would
have been carved out of the root.

*Metadata* agrees only right below the root. The root knows the protected names of its
own directory; but when another `write` entry lies strictly below the root, the metadata
of that entry is protected by the policy and by the inner root, and the outer root knows
nothing of it. `Rivloom.Sandbox.NestedMetadata` says when a path is in such a place, and
`Rivloom.Sandbox.accepted_path_writable_iff` that, for paths without `..`, this is the only
way in which a root exceeds the policy. A path with `..` is another one for the policy,
which normalizes it, than for the root, which compares it as it stands.
-/

namespace Rivloom.Sandbox

open AbsolutePathBuf (fromAbsolutePath normalizeFrom rawStartsWith_toComponents strip_eq_some
  toComponents)

variable {path : AbsolutePathBuf} {host : SandboxHost}

open FileSystemSandboxPolicy

/-! ### Hosts without symbolic links -/

/-- **No symbolic links**: canonicalizing a path gives the path. -/
def SandboxHost.NoSymlinks (host : SandboxHost) : Prop :=
  ∀ path canonical, host.canonicalize path = some canonical → canonical = path

theorem canonicalizePreservingSymlinks_eq (h : host.NoSymlinks) (path : AbsolutePathBuf) :
    canonicalizePreservingSymlinks host path = path := by
  unfold canonicalizePreservingSymlinks
  split
  · next canonical hcanonical =>
    obtain rfl := h path canonical hcanonical
    exact ite_self _
  · rfl

theorem normalizeEffectiveAbsolutePath_eq (h : host.NoSymlinks) (path : AbsolutePathBuf) :
    normalizeEffectiveAbsolutePath host path = path := by
  unfold normalizeEffectiveAbsolutePath
  dsimp only
  cases hfound : path.ancestors.findSome? _ with
  | none => rfl
  | some found =>
    obtain ⟨ancestor, -, hancestor⟩ := List.exists_of_findSome?_eq_some hfound
    split at hancestor
    · cases hancestor
    · obtain ⟨suffix, hsuffix, rfl⟩ := Option.map_eq_some_iff.mp hancestor
      rw [canonicalizePreservingSymlinks_eq h, ← AbsolutePathBuf.strip_eq_some.mp hsuffix]
      rfl

/-! ### Lists of paths -/

theorem mem_dedupAbsolutePaths {paths : List AbsolutePathBuf} :
    path ∈ dedupAbsolutePaths paths ↔ path ∈ paths := by
  suffices h : ∀ seen : List AbsolutePathBuf,
      path ∈ paths.foldl
        (fun deduped p => if p ∈ deduped then deduped else deduped ++ [p]) seen ↔
        path ∈ seen ∨ path ∈ paths by
    simpa [dedupAbsolutePaths] using h []
  induction paths with
  | nil => simp
  | cons first rest ih =>
    intro seen
    rw [List.foldl_cons, ih]
    split
    · next hseen =>
      constructor
      · rintro (h | h)
        · exact .inl h
        · exact .inr (List.mem_cons_of_mem _ h)
      · rintro (h | h)
        · exact .inl h
        · rcases List.mem_cons.mp h with rfl | h
          · exact .inl hseen
          · exact .inr h
    · simp [or_assoc]

/-- Of two prefixes of one list the shorter is a prefix of the longer, and they are equal
when their lengths are. -/
theorem path_eq_of_length_eq {path first second : AbsolutePathBuf}
    (hfirst : path.startsWith first = true) (hsecond : path.startsWith second = true)
    (hlength : first.segments.length = second.segments.length) : first = second := by
  have hinit := List.prefix_of_prefix_length_le (AbsolutePathBuf.startsWith_iff.mp hfirst)
    (AbsolutePathBuf.startsWith_iff.mp hsecond) hlength.le
  exact congrArg AbsolutePathBuf.mk (hinit.eq_of_length hlength)

/-! ### The entry that decides -/

section

variable {Uri : Type} [PathUri Uri] {host : SandboxHost} {policy : FileSystemSandboxPolicy Uri}
  {cwd : Option AbsolutePathBuf} {entry : ResolvedFileSystemEntry} {root : WritableRoot}
  {name : String} {first second : ResolvedFileSystemEntry}

/-- **The deciding entry**: it lies above the path, its access is the answer, and no entry
above the path takes precedence over it. -/
theorem resolveAccess_cases (host : SandboxHost) (cwd : Option AbsolutePathBuf)
    (hkind : policy.kind = .restricted) (path : AbsolutePathBuf) :
    ((∀ entry ∈ policy.resolvedEntriesWithCwd host cwd, path.startsWith entry.path = false) ∧
      policy.resolveAccessWithCwd host cwd path = .deny) ∨
    ∃ entry ∈ policy.resolvedEntriesWithCwd host cwd, path.startsWith entry.path = true ∧
      policy.resolveAccessWithCwd host cwd path = entry.access ∧
      ∀ other ∈ policy.resolvedEntriesWithCwd host cwd, path.startsWith other.path = true →
        resolvedEntryPrecedence other ≤ resolvedEntryPrecedence entry := by
  unfold resolveAccessWithCwd
  rw [hkind]
  dsimp only
  set above := (policy.resolvedEntriesWithCwd host cwd).filter
    (fun entry => path.startsWith entry.path) with habove
  cases hmax : above.reverse.argmax resolvedEntryPrecedence with
  | none =>
    left
    have hnil : above = [] := by simpa using List.argmax_eq_none.mp hmax
    refine ⟨?_, rfl⟩
    intro entry hentry
    exact Bool.not_eq_true _ ▸ List.filter_eq_nil_iff.mp (habove ▸ hnil) entry hentry
  | some entry =>
    right
    have hmem : entry ∈ above := List.mem_reverse.mp (List.argmax_mem hmax)
    obtain ⟨hentry, hstarts⟩ := List.mem_filter.mp hmem
    refine ⟨entry, hentry, hstarts, rfl, ?_⟩
    intro other hother hotherStarts
    exact List.le_of_mem_argmax
      (List.mem_reverse.mpr (List.mem_filter.mpr ⟨hother, hotherStarts⟩)) hmax

theorem length_le_of_precedence_le
    (h : resolvedEntryPrecedence first ≤ resolvedEntryPrecedence second) :
    first.path.segments.length ≤ second.path.segments.length := by
  rcases Prod.Lex.le_iff.mp h with hlt | ⟨heq, -⟩
  · exact Nat.le_of_lt_succ (Nat.lt_succ_of_lt (Nat.lt_of_succ_lt_succ hlt))
  · exact (Nat.succ_injective heq).le

theorem rank_le_of_precedence_le
    (h : resolvedEntryPrecedence first ≤ resolvedEntryPrecedence second)
    (hlength : first.path.segments.length = second.path.segments.length) :
    first.access.rank ≤ second.access.rank := by
  rcases Prod.Lex.le_iff.mp h with hlt | ⟨-, hle⟩
  · exact absurd (Nat.lt_of_succ_lt_succ hlt) (by omega)
  · exact hle

theorem resolveAccess_of_deciding (hkind : policy.kind = .restricted)
    (hentry : entry ∈ policy.resolvedEntriesWithCwd host cwd)
    (hstarts : path.startsWith entry.path = true)
    (hmax : ∀ other ∈ policy.resolvedEntriesWithCwd host cwd, path.startsWith other.path = true →
      resolvedEntryPrecedence other ≤ resolvedEntryPrecedence entry) :
    policy.resolveAccessWithCwd host cwd entry.path = entry.access := by
  have hself : entry.path.startsWith entry.path = true :=
    AbsolutePathBuf.startsWith_iff.mpr (List.prefix_refl _)
  rcases resolveAccess_cases host cwd hkind entry.path with
    ⟨hnone, -⟩ | ⟨best, hbest, hbestStarts, haccess, hbestMax⟩
  · exact absurd (hnone entry hentry) (by simp [hself])
  · -- the best entry above `entry.path` is also above the path, so each bounds the other
    have hpath : path.startsWith best.path = true :=
      AbsolutePathBuf.startsWith_iff.mpr
        ((AbsolutePathBuf.startsWith_iff.mp hbestStarts).trans
          (AbsolutePathBuf.startsWith_iff.mp hstarts))
    have hle := hmax best hbest hpath
    have hge := hbestMax entry hentry hself
    have hlength : best.path.segments.length = entry.path.segments.length :=
      le_antisymm (length_le_of_precedence_le hle) (length_le_of_precedence_le hge)
    have hrank : best.access.rank = entry.access.rank :=
      le_antisymm (rank_le_of_precedence_le hle hlength)
        (rank_le_of_precedence_le hge hlength.symm)
    rw [haccess]
    revert hrank
    cases best.access <;> cases entry.access <;> simp [FileSystemAccessMode.rank]

theorem canWrite_of_access (h : policy.canWritePathWithCwd host cwd path = true) :
    (policy.resolveAccessWithCwd host cwd path).canWrite = true := by
  unfold canWritePathWithCwd at h
  split at h
  · cases h
  · next haccess => simpa using haccess

/-! ### The entries of a root -/

theorem mem_writableEntries :
    path ∈ policy.writableEntries host cwd ↔
      ∃ entry ∈ policy.resolvedEntriesWithCwd host cwd, entry.path = path ∧
        entry.access.canWrite = true ∧ policy.canWritePathWithCwd host cwd path = true := by
  simp only [writableEntries, List.mem_map, List.mem_filter, Bool.and_eq_true]
  constructor
  · rintro ⟨entry, ⟨hentry, hwrite, hcan⟩, rfl⟩
    exact ⟨entry, hentry, rfl, hwrite, hcan⟩
  · rintro ⟨entry, hentry, rfl, hwrite, hcan⟩
    exact ⟨entry, ⟨hentry, hwrite, hcan⟩, rfl⟩

theorem mem_getWritableRootsWithCwd (hlinks : host.NoSymlinks)
    (h : root ∈ policy.getWritableRootsWithCwd host cwd) :
    policy.hasFullDiskWriteAccess host = false ∧
      root.root ∈ policy.writableEntries host cwd ∧
      root = policy.writableRootOf host cwd (policy.writableEntries host cwd) root.root := by
  unfold getWritableRootsWithCwd at h
  split at h
  · cases h
  · next hfull =>
    obtain ⟨path, hpath, rfl⟩ := List.mem_map.mp h
    obtain ⟨raw, hraw, rfl⟩ := List.mem_map.mp (mem_dedupAbsolutePaths.mp hpath)
    rw [normalizeEffectiveAbsolutePath_eq hlinks]
    exact ⟨by simpa using hfull, hraw, rfl⟩

theorem carveoutOf_eq (hlinks : host.NoSymlinks) {root : AbsolutePathBuf}
    {rawWritableRoots : List AbsolutePathBuf} (hne : entry.path ≠ root)
    (hstarts : entry.path.startsWith root = true) :
    carveoutOf host root rawWritableRoots entry = some entry.path := by
  unfold carveoutOf rawCarveoutPath
  by_cases hroot : root.parent.isNone
  · simp [hroot, normalizeEffectiveAbsolutePath_eq hlinks, hne, hstarts]
  · simp [hroot, hne, hstarts]

theorem mem_readOnlySubpaths (hlinks : host.NoSymlinks) (roots : List AbsolutePathBuf)
    {root : AbsolutePathBuf} (hentry : entry ∈ policy.resolvedEntriesWithCwd host cwd)
    (haccess : entry.access.canWrite = false)
    (hcan : policy.canWritePathWithCwd host cwd entry.path = false) (hne : entry.path ≠ root)
    (hstarts : entry.path.startsWith root = true) :
    entry.path ∈ (policy.writableRootOf host cwd roots root).readOnlySubpaths := by
  refine mem_dedupAbsolutePaths.mpr (List.mem_append_right _ (List.mem_filterMap.mpr ?_))
  exact ⟨entry, List.mem_filter.mpr ⟨hentry, by simp [haccess, hcan]⟩,
    carveoutOf_eq hlinks hne hstarts⟩

/-- What a root asks of a path without `..`. -/
theorem isPathWritable_iff :
    root.isPathWritable path.toComponents = true ↔
      path.startsWith root.root = true ∧
        (∀ subpath ∈ root.readOnlySubpaths, path.startsWith subpath = false) ∧
        root.pathContainsProtectedMetadataName path.toComponents = false := by
  simp only [WritableRoot.isPathWritable, rawStartsWith_toComponents,
    Bool.and_eq_true, Bool.not_eq_true', List.any_eq_false, Bool.not_eq_true, and_assoc]

/-- **Explicit entries agree**: the entry that decides an accepted path grants write access. -/
theorem resolveAccess_of_accepted (hlinks : host.NoSymlinks) (hkind : policy.kind = .restricted)
    (hroot : root ∈ policy.getWritableRootsWithCwd host cwd)
    (haccepted : root.isPathWritable path.toComponents = true) :
    (policy.resolveAccessWithCwd host cwd path).canWrite = true := by
  obtain ⟨-, hentries, hof⟩ := mem_getWritableRootsWithCwd hlinks hroot
  obtain ⟨own, hown, hownPath, hownWrite, hownCan⟩ := mem_writableEntries.mp hentries
  obtain ⟨hstarts, hsubpaths, -⟩ := isPathWritable_iff.mp haccepted
  rcases resolveAccess_cases host cwd hkind path with
    ⟨hnone, -⟩ | ⟨entry, hentry, hentryStarts, haccess, hmax⟩
  · exact absurd (hnone own hown) (by simp [hownPath, hstarts])
  · rw [haccess]
    by_contra hnot
    have hnot : entry.access.canWrite = false := by simpa using hnot
    have hself := resolveAccess_of_deciding hkind hentry hentryStarts hmax
    have hcan : policy.canWritePathWithCwd host cwd entry.path = false := by
      by_contra hcan
      have := canWrite_of_access (by simpa using hcan : policy.canWritePathWithCwd host cwd
        entry.path = true)
      rw [hself, hnot] at this
      cases this
    have hne : entry.path ≠ root.root := by
      intro heq
      rw [heq, hownCan] at hcan
      cases hcan
    -- the root's own entry is above the path, so the deciding entry is at least as deep
    have hdepth : root.root.segments.length ≤ entry.path.segments.length := by
      rw [← hownPath]
      exact length_le_of_precedence_le (hmax own hown (by rw [hownPath]; exact hstarts))
    have hbelow : entry.path.startsWith root.root = true :=
      AbsolutePathBuf.startsWith_iff.mpr
        (List.prefix_of_prefix_length_le (AbsolutePathBuf.startsWith_iff.mp hstarts)
          (AbsolutePathBuf.startsWith_iff.mp hentryStarts) hdepth)
    have hcarved := mem_readOnlySubpaths hlinks (policy.writableEntries host cwd)
      hentry hnot hcan hne hbelow
    rw [← hof] at hcarved
    have := hsubpaths entry.path hcarved
    rw [hentryStarts] at this
    cases this

/-! ### Metadata -/

theorem metadataPathName_eq_some {name found : String} :
    metadataPathName name = some found ↔ name = found ∧ name ∈ protectedMetadataPathNames := by
  unfold metadataPathName
  constructor
  · intro h
    have heq : found = name := by simpa using List.find?_some h
    exact ⟨heq.symm, heq ▸ List.mem_of_find?_eq_some h⟩
  · rintro ⟨rfl, hmem⟩
    cases hfind : protectedMetadataPathNames.find? (· == name) with
    | none => exact absurd (List.find?_eq_none.mp hfind name hmem) (by simp)
    | some found =>
      have heq : found = name := by simpa using List.find?_some hfind
      rw [heq]

theorem join_metadata (host : SandboxHost) (hname : name ∈ protectedMetadataPathNames)
    (path : AbsolutePathBuf) :
    ∃ segment : Segment, segment.val = name ∧
      path.join host.toPathHost name = ⟨path.segments ++ [segment]⟩ := by
  simp only [protectedMetadataPathNames, List.mem_cons, List.not_mem_nil, or_false] at hname
  rcases hname with rfl | rfl | rfl
  · exact ⟨⟨".git", by decide⟩, rfl, path.join_eq (by decide) (by decide) (by decide)⟩
  · exact ⟨⟨".agents", by decide⟩, rfl, path.join_eq (by decide) (by decide) (by decide)⟩
  · exact ⟨⟨".codex", by decide⟩, rfl, path.join_eq (by decide) (by decide) (by decide)⟩

/-- **The metadata of one entry above a path**: the entry's path and the next name. -/
theorem metadataChildOf_eq_some {target child : AbsolutePathBuf} :
    metadataChildOf host target entry = some (child, name) ↔
      ∃ (segment : Segment) (rest : List Segment),
        target.segments = entry.path.segments ++ segment :: rest ∧ segment.val = name ∧
        name ∈ protectedMetadataPathNames ∧ child = ⟨entry.path.segments ++ [segment]⟩ := by
  unfold metadataChildOf
  simp only [bind, Option.bind_eq_some_iff, pure, Option.some.injEq, Prod.mk.injEq,
    strip_eq_some, metadataPathName_eq_some, List.head?_eq_some_iff]
  constructor
  · rintro ⟨_, htarget, segment, ⟨rest, rfl⟩, found, ⟨rfl, hname⟩, rfl, rfl⟩
    obtain ⟨joined, hjoined, hjoin⟩ := join_metadata host hname entry.path
    obtain rfl : joined = segment := Subtype.ext hjoined
    exact ⟨joined, rest, htarget, rfl, hname, hjoin⟩
  · rintro ⟨segment, rest, htarget, rfl, hname, rfl⟩
    obtain ⟨joined, hjoined, hjoin⟩ := join_metadata host hname entry.path
    obtain rfl : joined = segment := Subtype.ext hjoined
    exact ⟨_, htarget, joined, ⟨rest, rfl⟩, joined.val, ⟨rfl, hname⟩, hjoin, rfl⟩

theorem hasExplicitWriteEntry_iff {child target : AbsolutePathBuf} :
    policy.hasExplicitWriteEntryForMetadataPath host cwd child target = true ↔
      ∃ entry ∈ policy.resolvedEntriesWithCwd host cwd, entry.access.canWrite = true ∧
        target.startsWith entry.path = true ∧ entry.path.startsWith child = true := by
  simp only [hasExplicitWriteEntryForMetadataPath, List.any_eq_true, Bool.and_eq_true, and_assoc]

theorem isMetadataWriteDenied_iff (hkind : policy.kind = .restricted) :
    policy.isMetadataWriteDenied host cwd path = true ↔
      ∃ child name, policy.metadataChildOfWritableRoot host cwd path = some (child, name) ∧
        policy.hasExplicitWriteEntryForMetadataPath host cwd child path = false := by
  unfold isMetadataWriteDenied
  rw [if_neg (by simp [hkind])]
  cases hchild : policy.metadataChildOfWritableRoot host cwd path with
  | none => simp
  | some found =>
    obtain ⟨child, name⟩ := found
    constructor
    · intro h
      exact ⟨child, name, rfl, by simpa using h⟩
    · rintro ⟨_, _, heq, hexplicit⟩
      cases heq
      simpa using hexplicit

/-- **Metadata of an inner entry**: the policy protects the path as metadata of a `write`
entry strictly below the root – the metadata directory is not one of the root's own, which
is one name below it – and no `write` entry inside that metadata lies above the path. -/
def NestedMetadata (host : SandboxHost) (policy : FileSystemSandboxPolicy Uri)
    (cwd : Option AbsolutePathBuf) (root path : AbsolutePathBuf) : Prop :=
  ∃ child name, policy.metadataChildOfWritableRoot host cwd path = some (child, name) ∧
    root.segments.length + 1 < child.segments.length ∧
    policy.hasExplicitWriteEntryForMetadataPath host cwd child path = false

/-- The first entry with metadata above a path is the first one with metadata above a
shorter path too, if it has metadata above that. -/
theorem metadataChild_of_shorter {shorter path child : AbsolutePathBuf}
    (hshorter : path.startsWith shorter = true)
    (hchild : policy.metadataChildOfWritableRoot host cwd path = some (child, name))
    (hstarts : shorter.startsWith child = true) :
    policy.metadataChildOfWritableRoot host cwd shorter = some (child, name) := by
  obtain ⟨tail, htail⟩ := AbsolutePathBuf.startsWith_iff.mp hshorter
  unfold metadataChildOfWritableRoot at hchild ⊢
  obtain ⟨before, entry, after, hsplit, hfound, hbefore⟩ := List.findSome?_eq_some_iff.mp hchild
  refine List.findSome?_eq_some_iff.mpr ⟨before, entry, after, hsplit, ?_, ?_⟩
  · obtain ⟨segment, rest, -, hsegment, hname, rfl⟩ := metadataChildOf_eq_some.mp hfound
    obtain ⟨more, hmore⟩ := AbsolutePathBuf.startsWith_iff.mp hstarts
    refine metadataChildOf_eq_some.mpr ⟨segment, more, ?_, hsegment, hname, rfl⟩
    rw [← hmore]
    simp
  · intro other hother
    -- metadata above the shorter path is metadata above the path
    cases hfoundOther : metadataChildOf host shorter other with
    | none => rfl
    | some found =>
      obtain ⟨segment, rest, hrest, hsegment, hname, -⟩ :=
        metadataChildOf_eq_some.mp (show metadataChildOf host shorter other =
          some (found.1, found.2) from hfoundOther)
      have hlonger : metadataChildOf host path other =
          some (⟨other.path.segments ++ [segment]⟩, found.2) := by
        refine metadataChildOf_eq_some.mpr ⟨segment, rest ++ tail, ?_, hsegment, hname, rfl⟩
        rw [← htail, hrest]
        simp
      rw [hbefore other hother] at hlonger
      cases hlonger

/-- The metadata names of a root are those that the policy does not let be written. -/
theorem canWrite_of_not_protected (hlinks : host.NoSymlinks) {roots : List AbsolutePathBuf}
    {root : AbsolutePathBuf} {segment : Segment}
    (hname : segment.val ∈ protectedMetadataPathNames)
    (h : segment.val ∉ (policy.writableRootOf host cwd roots root).protectedMetadataNames) :
    policy.canWritePathWithCwd host cwd ⟨root.segments ++ [segment]⟩ = true := by
  obtain ⟨joined, hjoined, hjoin⟩ := join_metadata host hname root
  obtain rfl : joined = segment := Subtype.ext hjoined
  by_contra hcannot
  refine h (List.mem_filter.mpr ⟨hname, ?_⟩)
  refine List.all_eq_true.mpr ?_
  intro path hpath
  -- the entries that a root stands for are the root itself, as there are no links
  have hpathEq : path = root := by
    rcases List.mem_cons.mp hpath with rfl | hraw
    · rfl
    · have := (List.mem_filter.mp hraw).2
      rw [normalizeEffectiveAbsolutePath_eq hlinks] at this
      simpa using this
  rw [hpathEq, hjoin]
  simpa using hcannot

/-- Metadata right below the root, or above it, is not protected from an accepted path. -/
theorem nested_of_denied (hlinks : host.NoSymlinks) (hkind : policy.kind = .restricted)
    (hroot : root ∈ policy.getWritableRootsWithCwd host cwd)
    (haccepted : root.isPathWritable path.toComponents = true) {child : AbsolutePathBuf}
    (hchild : policy.metadataChildOfWritableRoot host cwd path = some (child, name))
    (hexplicit : policy.hasExplicitWriteEntryForMetadataPath host cwd child path = false) :
    root.root.segments.length + 1 < child.segments.length := by
  obtain ⟨hfull, hentries, hof⟩ := mem_getWritableRootsWithCwd hlinks hroot
  obtain ⟨own, hown, hownPath, hownWrite, -⟩ := mem_writableEntries.mp hentries
  obtain ⟨hstarts, -, hmetadata⟩ := isPathWritable_iff.mp haccepted
  have hno : ∀ entry ∈ policy.resolvedEntriesWithCwd host cwd, entry.access.canWrite = true →
      path.startsWith entry.path = true → entry.path.startsWith child = false := by
    intro entry hentry hwrite hentryStarts
    by_contra hinside
    rw [hasExplicitWriteEntry_iff.mpr ⟨entry, hentry, hwrite, hentryStarts, by simpa using hinside⟩]
      at hexplicit
    cases hexplicit
  unfold metadataChildOfWritableRoot at hchild
  obtain ⟨entry, hentry, hfound⟩ := List.exists_of_findSome?_eq_some hchild
  obtain ⟨segment, rest, hpath, hsegment, hname, rfl⟩ := metadataChildOf_eq_some.mp hfound
  have hchildStarts : path.startsWith ⟨entry.path.segments ++ [segment]⟩ = true :=
    AbsolutePathBuf.startsWith_iff.mpr ⟨rest, by rw [hpath]; simp⟩
  by_contra hdepth
  rw [List.length_append, List.length_singleton] at hdepth
  rcases Nat.lt_or_ge entry.path.segments.length root.root.segments.length with habove | hat
  · -- the metadata lies above the root, which is a `write` entry inside it
    have hinside : root.root.startsWith ⟨entry.path.segments ++ [segment]⟩ = true :=
      AbsolutePathBuf.startsWith_iff.mpr
        (List.prefix_of_prefix_length_le (AbsolutePathBuf.startsWith_iff.mp hchildStarts)
          (AbsolutePathBuf.startsWith_iff.mp hstarts)
          (by rw [List.length_append, List.length_singleton]; omega))
    have := hno own hown hownWrite (by rw [hownPath]; exact hstarts)
    rw [hownPath, hinside] at this
    cases this
  · -- the metadata is the root's own, whose name the root does not protect
    have hentryStarts : path.startsWith entry.path = true :=
      AbsolutePathBuf.startsWith_iff.mpr ⟨segment :: rest, hpath.symm⟩
    have hsame : entry.path = root.root :=
      path_eq_of_length_eq hentryStarts hstarts (by omega)
    have hnotProtected : segment.val ∉ root.protectedMetadataNames := by
      have hdrop : path.toComponents.drop root.root.segments.length =
          .normal segment :: rest.map .normal := by
        rw [toComponents, hpath, hsame, List.map_append,
          List.drop_left' (List.length_map _), List.map_cons]
      rw [WritableRoot.pathContainsProtectedMetadataName,
        rawStartsWith_toComponents, if_pos hstarts, hdrop] at hmetadata
      intro hmem
      exact List.any_eq_false.mp hmetadata segment.val hmem (beq_self_eq_true segment.val)
    have hcan : policy.canWritePathWithCwd host cwd ⟨root.root.segments ++ [segment]⟩ = true := by
      rw [hof] at hnotProtected
      exact canWrite_of_not_protected hlinks (hsegment ▸ hname) hnotProtected
    -- so the policy lets the metadata directory itself be written: it has an explicit entry
    rw [hsame] at hchildStarts hchild hno
    have hshorter := metadataChild_of_shorter hchildStarts hchild
      (AbsolutePathBuf.startsWith_iff.mpr (List.prefix_refl _))
    have hnotDenied : policy.isMetadataWriteDenied host cwd
        ⟨root.root.segments ++ [segment]⟩ = false := by
      unfold canWritePathWithCwd at hcan
      rw [hfull] at hcan
      split at hcan
      · cases hcan
      · simpa using hcan
    cases hexplicitHere : policy.hasExplicitWriteEntryForMetadataPath host cwd
        ⟨root.root.segments ++ [segment]⟩ ⟨root.root.segments ++ [segment]⟩ with
    | false =>
      rw [(isMetadataWriteDenied_iff hkind).mpr ⟨_, _, hshorter, hexplicitHere⟩] at hnotDenied
      cases hnotDenied
    | true =>
      obtain ⟨grant, hgrant, hgrantWrite, hgrantStarts, hgrantInside⟩ :=
        hasExplicitWriteEntry_iff.mp hexplicitHere
      have hgrantPath : path.startsWith grant.path = true :=
        AbsolutePathBuf.startsWith_iff.mpr
          ((AbsolutePathBuf.startsWith_iff.mp hgrantStarts).trans
            (AbsolutePathBuf.startsWith_iff.mp hchildStarts))
      rw [hno grant hgrant hgrantWrite hgrantPath] at hgrantInside
      cases hgrantInside

/-- A normalized path that a writable root accepts is one that the policy lets be written, except
in the metadata of a `write` entry strictly below the root. -/
theorem canWrite_of_accepted_iff (hlinks : host.NoSymlinks) (hkind : policy.kind = .restricted)
    (hroot : root ∈ policy.getWritableRootsWithCwd host cwd)
    (haccepted : root.isPathWritable path.toComponents = true) :
    policy.canWritePathWithCwd host cwd path = true ↔
      ¬NestedMetadata host policy cwd root.root path := by
  obtain ⟨hfull, -, -⟩ := mem_getWritableRootsWithCwd hlinks hroot
  have haccess := resolveAccess_of_accepted hlinks hkind hroot haccepted
  have hcan : policy.canWritePathWithCwd host cwd path =
      !policy.isMetadataWriteDenied host cwd path := by
    unfold canWritePathWithCwd
    rw [haccess, hfull]
    rfl
  rw [hcan, Bool.not_eq_true', ← Bool.not_eq_true, not_iff_not, isMetadataWriteDenied_iff hkind]
  constructor
  · rintro ⟨child, name, hchild, hexplicit⟩
    exact ⟨child, name, hchild,
      nested_of_denied hlinks hkind hroot haccepted hchild hexplicit, hexplicit⟩
  · rintro ⟨child, name, hchild, -, hexplicit⟩
    exact ⟨child, name, hchild, hexplicit⟩

/-! ### Paths as they are given -/

theorem canWriteTextWithCwd_eq {path base : String} {target : AbsolutePathBuf}
    (hkind : policy.kind = .restricted)
    (htarget : resolveCandidatePath host.toPathHost path base = some target) :
    policy.canWriteTextWithCwd host path base =
      policy.canWritePathWithCwd host
        (fromAbsolutePath host.toPathHost base) target := by
  unfold canWriteTextWithCwd resolveTextAccessWithCwd isMetadataTextWriteDenied canWritePathWithCwd
  rw [hkind, htarget]
  rfl

end

/-! ### A root inside a root -/

/-- A host with no metadata directories, no `TMPDIR` and no links. -/
def bareHost : SandboxHost where
  home := none
  currentDir := none
  tmpdirVar := none
  isDir _ := false
  isFile _ := false
  pathExists _ := false
  readToString _ := none
  symlinkMetadata _ := none
  canonicalize := some

theorem bareHost_noSymlinks : bareHost.NoSymlinks := by
  intro path canonical h
  exact (Option.some.inj h).symm

/-- `/work`. -/
def workDir : AbsolutePathBuf := ⟨[⟨"work", by decide⟩]⟩

/-- `/work/inner`. -/
def innerDir : AbsolutePathBuf := ⟨workDir.segments ++ [⟨"inner", by decide⟩]⟩

/-- The workspace is writable, and so is a directory inside it. -/
def nestedPolicy : FileSystemSandboxPolicy AbsolutePathBuf where
  kind := .restricted
  entries := [⟨.special (.projectRoots none), .write⟩, ⟨.path innerDir, .write⟩]

end Rivloom.Sandbox
