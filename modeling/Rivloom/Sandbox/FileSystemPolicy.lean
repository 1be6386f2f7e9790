import Mathlib.Data.List.MinMax
import Mathlib.Data.Prod.Lex
import Rivloom.Path.AbsolutePath

/-!
# File-system policies of the sandbox

A restricted policy is a list of entries, each a path with the access that is granted
or denied there. A policy is read in two ways:

* the **policy check** (`Rivloom.Sandbox.FileSystemSandboxPolicy.canWritePathWithCwd`)
  resolves one path: the most specific entry above it decides, and the metadata
  directories right below a writable entry – `.git`, `.agents`, `.codex` – stay
  protected unless an entry grants them explicitly;
* the **writable roots**
  (`Rivloom.Sandbox.FileSystemSandboxPolicy.getWritableRootsWithCwd`) are what a platform
  sandbox is given: each writable entry with the paths carved out of it and the
  metadata names that are protected right below it.

Entries name paths by URIs, of which the model knows only what the policy asks of
them (`Rivloom.Sandbox.PathUri`): whether two are equal, and which path of the host
one is, if any. What is read from the host – the working directory, `TMPDIR`, which
metadata directories exist, what a `.git` file points to, how paths are
canonicalized – is `Rivloom.Sandbox.SandboxHost`.

The model is the build for Unix.
-/

namespace Rivloom.Sandbox

open AbsolutePathBuf (fromAbsolutePath rawStartsWith resolvePathAgainstBase)

/-! ### Names of metadata -/

/-- Top-level workspace metadata that stays protected under writable roots. -/
def protectedMetadataPathNames : List String := [".git", ".agents", ".codex"]

def metadataPathName (name : String) : Option String :=
  protectedMetadataPathNames.find? (· == name)

/-! ### Entries -/

/-- The access of an entry. Among entries of one path `deny` beats `write`, and
`write` beats `read`. -/
inductive FileSystemAccessMode where
  | read | write | deny
  deriving DecidableEq

namespace FileSystemAccessMode

def canRead : FileSystemAccessMode → Bool
  | .read | .write => true
  | .deny => false

def canWrite : FileSystemAccessMode → Bool
  | .write => true
  | .read | .deny => false

/-- The place of an access in the derived order. -/
def rank : FileSystemAccessMode → ℕ
  | .read => 0
  | .write => 1
  | .deny => 2

end FileSystemAccessMode

inductive FileSystemSpecialPath where
  | root
  | minimal
  | projectRoots (subpath : Option String)
  | tmpdir
  | slashTmp
  | unknown (path : String) (subpath : Option String)
  deriving DecidableEq

/-- **The URIs that entries name paths by**: when two are equal, and the path of this
host that one stands for. -/
class PathUri (Uri : Type) where
  /-- The equality of two URIs, which need not be that of their spelling. -/
  eq : Uri → Uri → Bool
  toAbsPath : Uri → Option AbsolutePathBuf

/-- A path of the host names itself. -/
instance : PathUri AbsolutePathBuf := ⟨fun left right => left == right, some⟩

inductive FileSystemPath (Uri : Type) where
  | path (path : Uri)
  | globPattern (pattern : String)
  | special (value : FileSystemSpecialPath)

structure FileSystemSandboxEntry (Uri : Type) where
  path : FileSystemPath Uri
  access : FileSystemAccessMode

inductive FileSystemSandboxKind where
  | restricted | unrestricted | externalSandbox
  deriving DecidableEq

/-- **A policy.** -/
structure FileSystemSandboxPolicy (Uri : Type) where
  kind : FileSystemSandboxKind
  entries : List (FileSystemSandboxEntry Uri)

/-- An entry whose path is known. -/
structure ResolvedFileSystemEntry where
  path : AbsolutePathBuf
  access : FileSystemAccessMode
  deriving DecidableEq

/-- **A writable root**, with what stays read-only below it. -/
structure WritableRoot where
  root : AbsolutePathBuf
  readOnlySubpaths : List AbsolutePathBuf
  protectedMetadataNames : List String
  deriving DecidableEq

/-- What the policy reads from its host. -/
structure SandboxHost extends PathHost where
  /-- `TMPDIR`. -/
  tmpdirVar : Option String
  isDir : AbsolutePathBuf → Bool
  isFile : AbsolutePathBuf → Bool
  pathExists : AbsolutePathBuf → Bool
  readToString : AbsolutePathBuf → Option String
  /-- Whether a path that is there is a symbolic link. -/
  symlinkMetadata : AbsolutePathBuf → Option Bool
  canonicalize : AbsolutePathBuf → Option AbsolutePathBuf

/-! ### Paths of the host -/

/-- A nested symbolic link on the way keeps the path as it is spelled. -/
def shouldPreserveLogicalPath (host : SandboxHost) (logical : AbsolutePathBuf) : Bool :=
  logical.ancestors.any fun ancestor =>
    host.symlinkMetadata ancestor == some true && (ancestor.parent.bind (·.parent)).isSome

def canonicalizePreservingSymlinks (host : SandboxHost) (path : AbsolutePathBuf) :
    AbsolutePathBuf :=
  match host.canonicalize path with
  | some canonical =>
    if shouldPreserveLogicalPath host path && canonical != path then path else canonical
  | none => path

/-- The nearest ancestor that is there is canonicalized, and the rest put behind it. -/
def normalizeEffectiveAbsolutePath (host : SandboxHost) (path : AbsolutePathBuf) :
    AbsolutePathBuf :=
  let normalized := path.ancestors.findSome? fun ancestor =>
    if (host.symlinkMetadata ancestor).isNone then none
    else
      (path.strip ancestor).map fun suffix =>
        AbsolutePathBuf.mk ((canonicalizePreservingSymlinks host ancestor).segments ++ suffix)
  normalized.getD path

/-- The directory that a `.git` file points to. -/
def resolveGitdirFromFile (host : SandboxHost) (dotGit : AbsolutePathBuf) :
    Option AbsolutePathBuf := do
  let contents ← host.readToString dotGit
  let (lead, gitdirRaw) ← splitOnce ':' (trim contents)
  guard (trim lead = "gitdir")
  let gitdirRaw := trim gitdirRaw
  guard (gitdirRaw ≠ "")
  let base ← dotGit.parent
  let gitdirPath := resolvePathAgainstBase host.toPathHost gitdirRaw base
  guard (host.pathExists gitdirPath)
  return gitdirPath

def isGitPointerFile (host : SandboxHost) (path : AbsolutePathBuf) : Bool :=
  host.isFile path && path.fileName == some ".git"

/-- Paths without repetition, in the order of their first occurrence. -/
def dedupAbsolutePaths (paths : List AbsolutePathBuf) : List AbsolutePathBuf :=
  paths.foldl (fun deduped path => if path ∈ deduped then deduped else deduped ++ [path]) []

/-- The metadata below a writable root that is read-only by default. -/
def defaultReadOnlySubpathsForWritableRoot (host : SandboxHost) (writableRoot : AbsolutePathBuf)
    (protectMissingDotCodex : Bool) : List AbsolutePathBuf :=
  let topLevelGit := writableRoot.join host.toPathHost ".git"
  let topLevelAgents := writableRoot.join host.toPathHost ".agents"
  let topLevelCodex := writableRoot.join host.toPathHost ".codex"
  let gitdir :=
    if isGitPointerFile host topLevelGit then (resolveGitdirFromFile host topLevelGit).toList
    else []
  let git :=
    if host.isDir topLevelGit || host.isFile topLevelGit then
      (if host.isFile topLevelGit then gitdir else []) ++ [topLevelGit]
    else []
  let agents := if host.isDir topLevelAgents then [topLevelAgents] else []
  let codex := if protectMissingDotCodex || host.isDir topLevelCodex then [topLevelCodex] else []
  dedupAbsolutePaths (git ++ agents ++ codex)

/-! ### Resolving entries -/

def resolveFileSystemSpecialPath (host : SandboxHost) (value : FileSystemSpecialPath)
    (cwd : Option AbsolutePathBuf) : Option AbsolutePathBuf :=
  match value with
  | .root | .minimal | .unknown _ _ => none
  | .projectRoots subpath =>
    cwd.map fun cwd =>
      match subpath with
      | some subpath => resolvePathAgainstBase host.toPathHost subpath cwd
      | none => cwd
  | .tmpdir =>
    match host.tmpdirVar with
    | none => none
    | some tmpdir =>
      if tmpdir = "" then none else fromAbsolutePath host.toPathHost tmpdir
  | .slashTmp =>
    match fromAbsolutePath host.toPathHost "/tmp" with
    | none => none
    | some slashTmp => if host.isDir slashTmp then some slashTmp else none

section Policy

variable {Uri : Type} [PathUri Uri]

def resolveFileSystemPath (host : SandboxHost) (path : FileSystemPath Uri)
    (cwd : Option AbsolutePathBuf) : Option AbsolutePathBuf :=
  match path with
  | .path path => PathUri.toAbsPath path
  | .globPattern _ => none
  | .special value => resolveFileSystemSpecialPath host value cwd

def resolveEntryPath (host : SandboxHost) (path : FileSystemPath Uri)
    (cwd : Option AbsolutePathBuf) : Option AbsolutePathBuf :=
  match path with
  | .special .root => cwd.map fun _ => AbsolutePathBuf.root
  | path => resolveFileSystemPath host path cwd

/-- The most specific path wins, and at one path the access of the greater rank. -/
def resolvedEntryPrecedence (entry : ResolvedFileSystemEntry) : ℕ ×ₗ ℕ :=
  toLex (entry.path.segments.length + 1, entry.access.rank)

def specialPathsShareTarget (left right : FileSystemSpecialPath) : Bool :=
  match left, right with
  | .root, .root | .minimal, .minimal | .tmpdir, .tmpdir | .slashTmp, .slashTmp => true
  | .projectRoots left, .projectRoots right => left == right
  | .unknown left leftSubpath, .unknown right rightSubpath =>
    left == right && leftSubpath == rightSubpath
  | _, _ => false

def specialPathMatchesAbsolutePath (host : SandboxHost) (value : FileSystemSpecialPath)
    (path : AbsolutePathBuf) : Bool :=
  match value with
  | .root => path.parent.isNone
  | .slashTmp => some path == fromAbsolutePath host.toPathHost "/tmp"
  | _ => false

/-- Two paths of entries that are the same target before any prefix is compared. -/
def fileSystemPathsShareTarget (host : SandboxHost) (left right : FileSystemPath Uri) : Bool :=
  match left, right with
  | .path left, .path right => PathUri.eq left right
  | .special left, .special right => specialPathsShareTarget left right
  | .path path, .special value | .special value, .path path =>
    (PathUri.toAbsPath path).any (specialPathMatchesAbsolutePath host value)
  | .globPattern left, .globPattern right => left == right
  | .globPattern _, _ | _, .globPattern _ => false

namespace FileSystemSandboxPolicy

variable (host : SandboxHost) (policy : FileSystemSandboxPolicy Uri)
  (cwd : Option AbsolutePathBuf)

/-! ### Access to the whole disk -/

def hasRootAccess (policy : FileSystemSandboxPolicy Uri) (test : FileSystemAccessMode → Bool) :
    Bool :=
  policy.kind == .restricted && policy.entries.any fun entry =>
    match entry.path with
    | .special .root => test entry.access
    | _ => false

/-- A `write` entry of the same target shadows a `read` entry. -/
def hasSameTargetWriteOverride (entry : FileSystemSandboxEntry Uri) : Bool :=
  policy.entries.any fun candidate =>
    candidate.access.canWrite && decide (entry.access.rank < candidate.access.rank) &&
      fileSystemPathsShareTarget host candidate.path entry.path

/-- Whether an entry takes away some of a write grant for the root. -/
def narrowsWrite (entry : FileSystemSandboxEntry Uri) : Bool :=
  if entry.access.canWrite then false
  else
    match entry.path with
    | .path _ => !policy.hasSameTargetWriteOverride host entry
    | .globPattern _ => true
    | .special .root => entry.access == .deny
    | .special .minimal | .special (.unknown _ _) => false
    | .special _ => !policy.hasSameTargetWriteOverride host entry

def hasWriteNarrowingEntries : Bool :=
  policy.kind == .restricted && policy.entries.any (policy.narrowsWrite host)

def hasFullDiskWriteAccess : Bool :=
  match policy.kind with
  | .unrestricted | .externalSandbox => true
  | .restricted => policy.hasRootAccess (·.canWrite) && !policy.hasWriteNarrowingEntries host

def hasDeniedReadRestrictions (policy : FileSystemSandboxPolicy Uri) : Bool :=
  policy.kind == .restricted && policy.entries.any (·.access == .deny)

def hasFullDiskReadAccess (policy : FileSystemSandboxPolicy Uri) : Bool :=
  match policy.kind with
  | .unrestricted | .externalSandbox => true
  | .restricted => policy.hasRootAccess (·.canRead) && !policy.hasDeniedReadRestrictions

/-! ### The policy check -/

def resolvedEntriesWithCwd : List ResolvedFileSystemEntry :=
  policy.entries.filterMap fun entry =>
    (resolveEntryPath host entry.path cwd).map fun path => { path, access := entry.access }

/-- **The access of a path**: that of the most specific entry above it. Of several
entries with the greatest precedence the last one is taken. -/
def resolveAccessWithCwd (path : AbsolutePathBuf) : FileSystemAccessMode :=
  match policy.kind with
  | .unrestricted | .externalSandbox => .write
  | .restricted =>
    let above := (policy.resolvedEntriesWithCwd host cwd).filter fun entry =>
      path.startsWith entry.path
    ((above.reverse.argmax resolvedEntryPrecedence).map (·.access)).getD .deny

/-- The protected metadata that one writable entry has above a path. -/
def metadataChildOf (target : AbsolutePathBuf) (entry : ResolvedFileSystemEntry) :
    Option (AbsolutePathBuf × String) := do
  let relativePath ← target.strip entry.path
  let firstComponent ← relativePath.head?
  let metadataName ← metadataPathName firstComponent.val
  return (entry.path.join host.toPathHost metadataName, metadataName)

/-- The metadata directory below a writable entry that a path lies in: the first one, in
the order of the entries. -/
def metadataChildOfWritableRoot (target : AbsolutePathBuf) : Option (AbsolutePathBuf × String) :=
  ((policy.resolvedEntriesWithCwd host cwd).filter (·.access.canWrite)).findSome?
    (metadataChildOf host target)

/-- A writable entry inside the metadata and above the path. -/
def hasExplicitWriteEntryForMetadataPath (protectedMetadataPath target : AbsolutePathBuf) : Bool :=
  (policy.resolvedEntriesWithCwd host cwd).any fun entry =>
    entry.access.canWrite && target.startsWith entry.path &&
      entry.path.startsWith protectedMetadataPath

def isMetadataWriteDenied (target : AbsolutePathBuf) : Bool :=
  if policy.kind ≠ .restricted then false
  else
    match policy.metadataChildOfWritableRoot host cwd target with
    | none => false
    | some (protectedMetadataPath, _) =>
      !policy.hasExplicitWriteEntryForMetadataPath host cwd protectedMetadataPath target

/-- **May a path be written?** -/
def canWritePathWithCwd (path : AbsolutePathBuf) : Bool :=
  if !(policy.resolveAccessWithCwd host cwd path).canWrite then false
  else if policy.hasFullDiskWriteAccess host then true
  else !policy.isMetadataWriteDenied host cwd path

/-- **May a path be read?** -/
def canReadPathWithCwd (path : AbsolutePathBuf) : Bool :=
  (policy.resolveAccessWithCwd host cwd path).canRead

/-! ### Paths as they are given -/

/-- A relative path lies below the working directory. -/
def resolveCandidatePath (host : PathHost) (path cwd : String) : Option AbsolutePathBuf :=
  if isAbsolute path then fromAbsolutePath host path
  else (fromAbsolutePath host cwd).map fun cwd => cwd.join host path

/-- The access of a path as it is given; one that cannot be resolved is denied. -/
def resolveTextAccessWithCwd (path cwd : String) : FileSystemAccessMode :=
  match policy.kind with
  | .unrestricted | .externalSandbox => .write
  | .restricted =>
    match resolveCandidatePath host.toPathHost path cwd with
    | none => .deny
    | some target =>
      policy.resolveAccessWithCwd host (fromAbsolutePath host.toPathHost cwd) target

def canReadTextWithCwd (path cwd : String) : Bool :=
  (policy.resolveTextAccessWithCwd host path cwd).canRead

def isMetadataTextWriteDenied (path cwd : String) : Bool :=
  if policy.kind ≠ .restricted then false
  else
    match resolveCandidatePath host.toPathHost path cwd with
    | none => true
    | some target =>
      policy.isMetadataWriteDenied host (fromAbsolutePath host.toPathHost cwd)
        target

def canWriteTextWithCwd (path cwd : String) : Bool :=
  if !(policy.resolveTextAccessWithCwd host path cwd).canWrite then false
  else if policy.hasFullDiskWriteAccess host then true
  else !policy.isMetadataTextWriteDenied host path cwd

/-- **The protected metadata that an agent would write to**: the name of the directory, if
the write is to be blocked before it is executed. -/
def forbiddenAgentMetadataWrite (path cwd : String) : Option String :=
  if policy.kind ≠ .restricted then none
  else
    let base := fromAbsolutePath host.toPathHost cwd
    match resolveCandidatePath host.toPathHost path cwd with
    | none => none
    | some target =>
      match policy.metadataChildOfWritableRoot host base target with
      | none => none
      | some (protectedMetadataPath, metadataName) =>
        if policy.hasExplicitWriteEntryForMetadataPath host base protectedMetadataPath target then
          none
        else if !policy.canWritePathWithCwd host base target then some metadataName
        else none

/-! ### The writable roots -/

/-- The metadata names that may not be written below a root, nor below any entry that
the root stands for. -/
def protectedMetadataNamesForWritableRoot (root : AbsolutePathBuf)
    (rawWritableRoots : List AbsolutePathBuf) : List String :=
  protectedMetadataPathNames.filter fun metadataName =>
    (root :: rawWritableRoots).all fun path =>
      !policy.canWritePathWithCwd host cwd (path.join host.toPathHost metadataName)

def hasExplicitResolvedPathEntry (entries : List ResolvedFileSystemEntry)
    (path : AbsolutePathBuf) : Bool :=
  entries.any fun entry => entry.path == path

/-- The path that a non-writable entry carves out of a root, spelled below the root. -/
def rawCarveoutPath (host : PathHost) (root : AbsolutePathBuf)
    (rawWritableRoots : List AbsolutePathBuf)
    (entry : ResolvedFileSystemEntry) : Option AbsolutePathBuf :=
  if root.parent.isNone then none
  else if entry.path = root then none
  else if entry.path.startsWith root then some entry.path
  else
    rawWritableRoots.findSome? fun rawRoot =>
      match entry.path.strip rawRoot with
      | none | some [] => none
      | some suffix => some (root.join host ("/".intercalate (suffix.map Subtype.val)))

/-- What a non-writable entry carves out of a root. -/
def carveoutOf (root : AbsolutePathBuf) (rawWritableRoots : List AbsolutePathBuf)
    (entry : ResolvedFileSystemEntry) : Option AbsolutePathBuf :=
  match rawCarveoutPath host.toPathHost root rawWritableRoots entry with
  | some path => some path
  | none =>
    let effectivePath := normalizeEffectiveAbsolutePath host entry.path
    if effectivePath = root || !effectivePath.startsWith root then none else some effectivePath

/-- One writable root, with everything that is carved out of it. -/
def writableRootOf (writableEntries : List AbsolutePathBuf) (root : AbsolutePathBuf) :
    WritableRoot :=
  let resolvedEntries := policy.resolvedEntriesWithCwd host cwd
  let rawWritableRoots :=
    writableEntries.filter fun path => normalizeEffectiveAbsolutePath host path == root
  let protectMissingDotCodex :=
    cwd.any fun cwd => normalizeEffectiveAbsolutePath host cwd == root
  let defaults :=
    (defaultReadOnlySubpathsForWritableRoot host root protectMissingDotCodex).filter fun path =>
      !hasExplicitResolvedPathEntry resolvedEntries path
  let carveouts :=
    (resolvedEntries.filter fun entry =>
      !entry.access.canWrite && !policy.canWritePathWithCwd host cwd entry.path).filterMap
        (carveoutOf host root rawWritableRoots)
  { root
    readOnlySubpaths := dedupAbsolutePaths (defaults ++ carveouts)
    protectedMetadataNames :=
      policy.protectedMetadataNamesForWritableRoot host cwd root rawWritableRoots }

/-- The entries that grant write access and are not overruled. -/
def writableEntries : List AbsolutePathBuf :=
  ((policy.resolvedEntriesWithCwd host cwd).filter fun entry =>
    entry.access.canWrite && policy.canWritePathWithCwd host cwd entry.path).map (·.path)

/-- **The writable roots**, as a platform sandbox is given them. -/
def getWritableRootsWithCwd : List WritableRoot :=
  if policy.hasFullDiskWriteAccess host then []
  else
    let writableEntries := policy.writableEntries host cwd
    (dedupAbsolutePaths (writableEntries.map (normalizeEffectiveAbsolutePath host))).map
      (policy.writableRootOf host cwd writableEntries)

end FileSystemSandboxPolicy

end Policy

namespace WritableRoot

def pathContainsProtectedMetadataName (writableRoot : WritableRoot) (path : List Component) :
    Bool :=
  if rawStartsWith path writableRoot.root then
    match path.drop writableRoot.root.segments.length with
    | [] => false
    | firstComponent :: _ =>
      writableRoot.protectedMetadataNames.any (· == firstComponent.asOsStr)
  else false

/-- **Does this root let a path be written?** The components of the path are compared as they
stand, and a `..` among them is a component like any other. -/
def isPathWritable (writableRoot : WritableRoot) (path : List Component) : Bool :=
  rawStartsWith path writableRoot.root &&
    !(writableRoot.readOnlySubpaths.any (rawStartsWith path)) &&
    !writableRoot.pathContainsProtectedMetadataName path

end WritableRoot

end Rivloom.Sandbox
