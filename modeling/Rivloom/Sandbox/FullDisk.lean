import Rivloom.Sandbox.WritableRoots

/-!
# Access to the whole disk

Two predicates say of a policy, without looking at any path, that it restricts nothing:
`Rivloom.Sandbox.FileSystemSandboxPolicy.hasFullDiskReadAccess` and
`Rivloom.Sandbox.FileSystemSandboxPolicy.hasFullDiskWriteAccess`. They are compared here
with what the policy resolves path by path.

Reading agrees: an entry for the root grants it, and nothing is denied.

Writing rests on a comparison of entries *before* they are resolved. An entry that is not
a `write` entry may stand beside a grant for the root if some `write` entry has the same
target (`Rivloom.Sandbox.fileSystemPathsShareTarget`), because at one path `write` beats
`read`. Two entries with the same target do resolve to the same path
(`Rivloom.Sandbox.resolveEntryPath_of_shareTarget`) – with one exception. The path `/tmp`,
written out, always resolves, but `:slash_tmp` resolves only where `/tmp` is a directory.
Where it is not, a `read` entry for `/tmp` is taken for shadowed and decides all the same
(`Rivloom.Sandbox.ClosedBySlashTmp`).
-/

namespace Rivloom.Sandbox

variable {path : AbsolutePathBuf}

open FileSystemSandboxPolicy

/-! ### URIs of entries -/

/-- **Equal URIs stand for the same path.** -/
class LawfulPathUri (Uri : Type) [PathUri Uri] : Prop where
  toAbsPath_eq : ∀ left right : Uri, PathUri.eq left right = true →
    PathUri.toAbsPath left = PathUri.toAbsPath right

instance : LawfulPathUri AbsolutePathBuf where
  toAbsPath_eq left right h := by
    have heq : left = right := beq_iff_eq.mp h
    rw [heq]

/-- The native syntax that a URI stands for. -/
inductive PathConvention where
  | posix
  | windows
  deriving DecidableEq

/-- `PathConvention::native()`, of the Unix build. -/
def PathConvention.native : PathConvention := .posix

/-- **The URL library**, the codecs beside it, and the paths of the host as bytes. -/
structure UrlLibrary (Url : Type) where
  asStr : Url → String
  hostStr : Url → Option String
  path : Url → String
  pathSegments : Url → Option (List String)
  /-- `url.to_file_path()`, checked to be absolute. -/
  toFilePath : Url → Option AbsolutePathBuf
  /-- `Url::from_file_path`, as a valid `file:` URL. -/
  fromFilePath : AbsolutePathBuf → Option Url
  /-- A URL from its text, as a valid `file:` URL. -/
  parse : String → Option Url
  /-- `urlencoding::decode_binary`. -/
  decodeBinary : String → List UInt8
  base64Encode : List UInt8 → String
  base64Decode : String → Option (List UInt8)
  pathBytes : AbsolutePathBuf → List UInt8
  /-- The path of these bytes, checked to be absolute. -/
  pathOfBytes : List UInt8 → Option AbsolutePathBuf

/-- `PathUri`: a `file:` URL as a path. -/
structure FileUri {Url : Type} (library : UrlLibrary Url) where
  url : Url

namespace FileUri

variable {Url : Type} {library : UrlLibrary Url} {uri : FileUri library}

/-- `BAD_PATH_URI_PREFIX`. -/
def badPathUriLead : String := "file:///%00/bad/path/"

/-- `decode_bad_path_uri`: the bytes of a path that has no URL of its own. -/
def opaqueFallbackBytes (uri : FileUri library) : Option (List UInt8) :=
  (stripLead badPathUriLead (library.asStr uri.url)).bind fun encodedPath =>
    if encodedPath = "" ∨ '/' ∈ encodedPath.toList then none
    else
      (library.base64Decode encodedPath).filter fun pathBytes =>
        library.base64Encode pathBytes = encodedPath

def isAsciiAlphabetic (byte : UInt8) : Bool :=
  0x41 ≤ byte && byte ≤ 0x5a || 0x61 ≤ byte && byte ≤ 0x7a

/-- `infer_opaque_path_convention`: a slash in front, or a drive or two backslashes in UTF-16LE. -/
def inferOpaquePathConvention (pathBytes : List UInt8) : Option PathConvention :=
  if pathBytes.head? = some 0x2f then some .posix
  else if pathBytes.length % 2 ≠ 0 then none
  else
    match pathBytes with
    | first :: 0 :: second :: 0 :: _ =>
      if isAsciiAlphabetic first ∧ second = 0x3a ∨ first = 0x5c ∧ second = 0x5c then some .windows
      else none
    | _ => none

def isWindowsDriveUriSegment (segment : String) : Bool :=
  match segment.toList with
  | [drive, ':'] => drive.isAlpha
  | _ => false

/-- The convention of a URI: a host is that of a Windows share, and a first segment such as
`C:` is a Windows drive. -/
def inferPathConvention (uri : FileUri library) : Option PathConvention :=
  match uri.opaqueFallbackBytes with
  | some pathBytes => inferOpaquePathConvention pathBytes
  | none =>
    if (library.hostStr uri.url).isSome then some .windows
    else
      let first := (library.pathSegments uri.url).bind fun segments => segments.find? (· ≠ "")
      if first.any isWindowsDriveUriSegment then some .windows else some .posix

/-- The bytes by which two Windows paths are compared. -/
def windowsIdentityPathBytes (uri : FileUri library) : Option (List UInt8) :=
  if uri.inferPathConvention ≠ some .windows ∨ uri.opaqueFallbackBytes.isSome then none
  else
    (library.pathSegments uri.url).bind fun segments =>
      if segments.any fun segment =>
          (library.decodeBinary segment).any fun byte => byte == 0x2f || byte == 0x5c then none
      else some (library.decodeBinary (library.path uri.url))

/-- `u8::to_ascii_lowercase`. -/
def toAsciiLowercase (byte : UInt8) : UInt8 :=
  if 0x41 ≤ byte ∧ byte ≤ 0x5a then byte + 0x20 else byte

def eqIgnoreAsciiCase (left right : List UInt8) : Bool :=
  left.map toAsciiLowercase == right.map toAsciiLowercase

/-- `PathUri::eq`: the equality of spellings, or of Windows paths without case. -/
def eq [DecidableEq Url] (uri other : FileUri library) : Bool :=
  if uri.url = other.url then true
  else
    match uri.windowsIdentityPathBytes, other.windowsIdentityPathBytes with
    | some path, some otherPath =>
      library.hostStr uri.url == library.hostStr other.url && eqIgnoreAsciiCase path otherPath
    | _, _ => false

/-- `PathUri::from_abs_path`, on Unix. -/
def fromAbsPath? (library : UrlLibrary Url) (path : AbsolutePathBuf) : Option (FileUri library) :=
  match (library.fromFilePath path).filter fun url => library.hostStr url ≠ some "" &&
      inferPathConvention (⟨url⟩ : FileUri library) = some .native with
  | some url => some ⟨url⟩
  | none =>
    (library.parse (badPathUriLead ++ library.base64Encode (library.pathBytes path))).map (⟨·⟩)

/-- `PathUri::to_abs_path`, on Unix. -/
def toAbsPath [DecidableEq Url] (uri : FileUri library) : Option AbsolutePathBuf :=
  if uri.inferPathConvention ≠ some .native then none
  else
    match uri.opaqueFallbackBytes with
    | some pathBytes =>
      (library.pathOfBytes pathBytes).filter fun path =>
        (fromAbsPath? library path).any fun other => eq other uri
    | none => library.toFilePath uri.url

instance [DecidableEq Url] : PathUri (FileUri library) := ⟨FileUri.eq, toAbsPath⟩

theorem inferPathConvention_of_identity {path : List UInt8}
    (h : uri.windowsIdentityPathBytes = some path) : uri.inferPathConvention = some .windows := by
  unfold windowsIdentityPathBytes at h
  split at h
  · cases h
  · next hcond =>
    by_contra hne
    exact hcond (Or.inl hne)

theorem toAbsPath_of_windows [DecidableEq Url] (h : uri.inferPathConvention = some .windows) :
    uri.toAbsPath = none := by
  unfold toAbsPath
  rw [if_pos (by rw [h]; decide)]

/-- Two spellings that are equal only as Windows paths stand for no path on Unix. -/
instance [DecidableEq Url] : LawfulPathUri (FileUri library) where
  toAbsPath_eq left right h := by
    change FileUri.eq left right = true at h
    change left.toAbsPath = right.toAbsPath
    unfold FileUri.eq at h
    split at h
    · next hurl =>
      obtain ⟨url⟩ := left
      obtain ⟨other⟩ := right
      obtain rfl : url = other := hurl
      rfl
    · split at h
      · next path otherPath hleft hright =>
        rw [toAbsPath_of_windows (inferPathConvention_of_identity hleft),
          toAbsPath_of_windows (inferPathConvention_of_identity hright)]
      · cases h

end FileUri

/-! ### Entries with the same target -/

/-- `/tmp`. -/
def slashTmp : AbsolutePathBuf := ⟨[⟨"tmp", by decide⟩]⟩

theorem fromAbsolutePath_slashTmp (host : PathHost) :
    AbsolutePathBuf.fromAbsolutePath host "/tmp" = some slashTmp := by
  rw [AbsolutePathBuf.fromAbsolutePath_of_isAbsolute host (by decide)]
  rfl

theorem eq_of_specialPathsShareTarget {left right : FileSystemSpecialPath}
    (h : specialPathsShareTarget left right = true) : left = right := by
  cases left <;> cases right <;> simp_all [specialPathsShareTarget]

theorem eq_rootDir_of_parent (h : path.parent.isNone = true) : path = AbsolutePathBuf.root := by
  unfold AbsolutePathBuf.parent at h
  split at h
  · next hnil => exact congrArg AbsolutePathBuf.mk hnil
  · cases h

section

variable {Uri : Type} [PathUri Uri] {host : SandboxHost} {policy : FileSystemSandboxPolicy Uri}
  {cwd : AbsolutePathBuf} {raw : FileSystemSandboxEntry Uri}

/-- Only `:root` and `:slash_tmp` are compared with a path that is written out. -/
theorem special_of_matches {value : FileSystemSpecialPath}
    (h : specialPathMatchesAbsolutePath host value path = true) :
    value = .root ∧ path = AbsolutePathBuf.root ∨ value = .slashTmp ∧ path = slashTmp := by
  cases value with
  | root => exact .inl ⟨rfl, eq_rootDir_of_parent h⟩
  | slashTmp =>
    have hpath : some path = some slashTmp := by
      rw [← fromAbsolutePath_slashTmp host.toPathHost]
      exact beq_iff_eq.mp h
    exact .inr ⟨rfl, Option.some.inj hpath⟩
  | minimal => cases h
  | projectRoots subpath => cases h
  | tmpdir => cases h
  | unknown path subpath => cases h

theorem resolveEntryPath_slashTmp_eq {cwd : Option AbsolutePathBuf} :
    resolveEntryPath host (.special .slashTmp : FileSystemPath Uri) cwd =
      if host.isDir slashTmp then some slashTmp else none := by
  simp only [resolveEntryPath, resolveFileSystemPath, resolveFileSystemSpecialPath,
    fromAbsolutePath_slashTmp]

theorem resolveEntryPath_slashTmp_of_isDir {cwd : Option AbsolutePathBuf}
    (hdir : host.isDir slashTmp = true) :
    resolveEntryPath host (.special .slashTmp : FileSystemPath Uri) cwd = some slashTmp := by
  rw [resolveEntryPath_slashTmp_eq, if_pos hdir]

theorem resolveEntryPath_slashTmp {cwd : Option AbsolutePathBuf}
    (h : resolveEntryPath host (.special .slashTmp : FileSystemPath Uri) cwd = some path) :
    path = slashTmp := by
  rw [resolveEntryPath_slashTmp_eq] at h
  split at h
  · exact (Option.some.inj h).symm
  · cases h

/-- **The same target is the same path**, but for `:slash_tmp`, which may not resolve, and
for `:root` where there is no working directory. -/
theorem resolveEntryPath_of_shareTarget [LawfulPathUri Uri] {left right : FileSystemPath Uri}
    {cwd : Option AbsolutePathBuf} (hshare : fileSystemPathsShareTarget host left right = true)
    (hright : resolveEntryPath host right cwd = some path) :
    resolveEntryPath host left cwd = some path ∨
      left = .special .slashTmp ∧ path = slashTmp ∨ path = AbsolutePathBuf.root := by
  cases left with
  | path left =>
    cases right with
    | path right =>
      left
      change PathUri.toAbsPath left = some path
      rw [LawfulPathUri.toAbsPath_eq left right hshare]
      exact hright
    | globPattern pattern => cases hshare
    | special value =>
      -- the path that is written out is the one the special entry resolves to
      obtain ⟨found, hfound, hmatches⟩ := (Option.any_eq_true _ _).mp hshare
      rcases special_of_matches hmatches with ⟨rfl, -⟩ | ⟨rfl, htmp⟩
      · obtain ⟨_, -, hroot⟩ := Option.map_eq_some_iff.mp hright
        exact .inr (.inr hroot.symm)
      · left
        change PathUri.toAbsPath left = some path
        rw [hfound, htmp, resolveEntryPath_slashTmp hright]
  | globPattern pattern =>
    cases right with
    | path right => cases hshare
    | globPattern other => cases hright
    | special value => cases hshare
  | special value =>
    cases right with
    | path right =>
      obtain ⟨found, hfound, hmatches⟩ := (Option.any_eq_true _ _).mp hshare
      have hpath : found = path := Option.some.inj (hfound.symm.trans hright)
      rcases special_of_matches hmatches with ⟨rfl, hroot⟩ | ⟨rfl, htmp⟩
      · exact .inr (.inr (hpath ▸ hroot))
      · exact .inr (.inl ⟨rfl, hpath ▸ htmp⟩)
    | globPattern pattern => cases hshare
    | special other =>
      left
      rw [eq_of_specialPathsShareTarget hshare]
      exact hright

/-! ### Resolved entries -/

theorem mem_resolvedEntriesWithCwd {cwd : Option AbsolutePathBuf}
    {entry : ResolvedFileSystemEntry} :
    entry ∈ policy.resolvedEntriesWithCwd host cwd ↔
      ∃ raw ∈ policy.entries, resolveEntryPath host raw.path cwd = some entry.path ∧
        raw.access = entry.access := by
  simp only [resolvedEntriesWithCwd, List.mem_filterMap, Option.map_eq_some_iff]
  constructor
  · rintro ⟨raw, hraw, path, hpath, rfl⟩
    exact ⟨raw, hraw, hpath, rfl⟩
  · rintro ⟨raw, hraw, hpath, haccess⟩
    refine ⟨raw, hraw, entry.path, hpath, ?_⟩
    rw [haccess]

theorem exists_rootDir_entry (host : SandboxHost) (cwd : AbsolutePathBuf)
    {test : FileSystemAccessMode → Bool} (h : policy.hasRootAccess test = true) :
    ∃ entry ∈ policy.resolvedEntriesWithCwd host (some cwd),
      entry.path = AbsolutePathBuf.root ∧ test entry.access = true := by
  obtain ⟨-, hany⟩ := Bool.and_eq_true_iff.mp h
  obtain ⟨raw, hraw, htest⟩ := List.any_eq_true.mp hany
  split at htest
  · next hroot =>
    refine ⟨⟨AbsolutePathBuf.root, raw.access⟩, mem_resolvedEntriesWithCwd.mpr ?_, rfl, htest⟩
    exact ⟨raw, hraw, by rw [hroot]; rfl, rfl⟩
  · cases htest

theorem startsWith_root (path : AbsolutePathBuf) : path.startsWith AbsolutePathBuf.root = true :=
  AbsolutePathBuf.startsWith_iff.mpr List.nil_prefix

/-! ### Reading -/

/-- **Reading the whole disk**: every path may be read. -/
theorem canRead_of_fullDisk (hkind : policy.kind = .restricted)
    (hfull : policy.hasFullDiskReadAccess = true) (path : AbsolutePathBuf) :
    policy.canReadPathWithCwd host (some cwd) path = true := by
  unfold hasFullDiskReadAccess at hfull
  rw [hkind] at hfull
  obtain ⟨hroot, hdenied⟩ := Bool.and_eq_true_iff.mp hfull
  obtain ⟨root, hmem, hrootPath, -⟩ := exists_rootDir_entry host cwd hroot
  unfold canReadPathWithCwd
  rcases resolveAccess_cases host (some cwd) hkind path with
    ⟨hnone, -⟩ | ⟨entry, hentry, -, haccess, -⟩
  · have := hnone root hmem
    rw [hrootPath, startsWith_root] at this
    cases this
  · obtain ⟨raw, hraw, -, hrawAccess⟩ := mem_resolvedEntriesWithCwd.mp hentry
    rw [haccess]
    have hallowed : raw.access ≠ .deny := by
      intro hdeny
      have hno : policy.hasDeniedReadRestrictions = true :=
        Bool.and_eq_true_iff.mpr ⟨by rw [hkind]; rfl,
          List.any_eq_true.mpr ⟨raw, hraw, by rw [hdeny]; rfl⟩⟩
      rw [hno] at hdenied
      cases hdenied
    rw [hrawAccess] at hallowed
    revert hallowed
    cases entry.access <;> simp [FileSystemAccessMode.canRead]

/-! ### Writing -/

/-- **Closed at `/tmp`**: a path at or below `/tmp`, where `/tmp` has an entry that is not a
`write` entry, and no `write` entry above the path resolves to `/tmp` or below it. -/
def ClosedBySlashTmp (host : SandboxHost) (policy : FileSystemSandboxPolicy Uri)
    (cwd path : AbsolutePathBuf) : Prop :=
  path.startsWith slashTmp = true ∧
    (∃ entry ∈ policy.resolvedEntriesWithCwd host (some cwd),
      entry.path = slashTmp ∧ entry.access.canWrite = false) ∧
    ∀ entry ∈ policy.resolvedEntriesWithCwd host (some cwd), entry.access.canWrite = true →
      path.startsWith entry.path = true → entry.path.startsWith slashTmp = false

theorem canWrite_iff {access : FileSystemAccessMode} : access.canWrite = true ↔
    access = .write := by
  cases access <;> simp [FileSystemAccessMode.canWrite]

theorem not_precedence_le (write read : ResolvedFileSystemEntry)
    (hpath : write.path = read.path) (hrank : read.access.rank < write.access.rank) :
    ¬resolvedEntryPrecedence write ≤ resolvedEntryPrecedence read := by
  intro hle
  have := rank_le_of_precedence_le hle (by rw [hpath])
  omega

theorem ClosedBySlashTmp.access_ne_write (hkind : policy.kind = .restricted)
    (h : ClosedBySlashTmp host policy cwd path) :
    policy.resolveAccessWithCwd host (some cwd) path ≠ .write := by
  obtain ⟨hbelow, ⟨closing, hclosing, hclosingPath, -⟩, hwrites⟩ := h
  intro hwrite
  rcases resolveAccess_cases host (some cwd) hkind path with
    ⟨-, hdeny⟩ | ⟨entry, hentry, hstarts, haccess, hmax⟩
  · rw [hdeny] at hwrite
    cases hwrite
  · -- the deciding entry is at least as deep as `/tmp`, so it lies there or below
    have hdepth := length_le_of_precedence_le
      (hmax closing hclosing (by rw [hclosingPath]; exact hbelow))
    rw [hclosingPath] at hdepth
    have hinside : entry.path.startsWith slashTmp = true :=
      AbsolutePathBuf.startsWith_iff.mpr
        (List.prefix_of_prefix_length_le (AbsolutePathBuf.startsWith_iff.mp hbelow)
          (AbsolutePathBuf.startsWith_iff.mp hstarts) hdepth)
    have hno := hwrites entry hentry (canWrite_iff.mpr (haccess.symm.trans hwrite)) hstarts
    rw [hinside] at hno
    cases hno

/-- An entry that does not narrow a grant for the root is overridden, or it is a `read` entry
for the root itself. -/
theorem override_of_not_narrows {cwd : Option AbsolutePathBuf}
    (hnotWrite : raw.access.canWrite = false) (hkept : policy.narrowsWrite host raw = false)
    (hpath : resolveEntryPath host raw.path cwd = some path) :
    policy.hasSameTargetWriteOverride host raw = true ∨
      path = AbsolutePathBuf.root ∧ raw.access.rank < FileSystemAccessMode.write.rank := by
  unfold narrowsWrite at hkept
  rw [if_neg (by rw [hnotWrite]; decide)] at hkept
  split at hkept
  · exact .inl (by simpa using hkept)
  · cases hkept
  · next hspecial =>
    right
    rw [hspecial] at hpath
    obtain ⟨_, -, hroot⟩ := Option.map_eq_some_iff.mp hpath
    refine ⟨hroot.symm, ?_⟩
    revert hkept hnotWrite
    cases raw.access <;> simp [FileSystemAccessMode.canWrite, FileSystemAccessMode.rank]
  · next hspecial =>
    rw [hspecial] at hpath
    cases hpath
  · next hspecial =>
    rw [hspecial] at hpath
    cases hpath
  · exact .inl (by simpa using hkept)

/-- What full write access says of the entries: there is a grant for the root, and no entry
narrows it. -/
theorem fullDiskWrite_parts (hkind : policy.kind = .restricted)
    (hfull : policy.hasFullDiskWriteAccess host = true) :
    policy.hasRootAccess (·.canWrite) = true ∧
      ∀ raw ∈ policy.entries, policy.narrowsWrite host raw = false := by
  unfold hasFullDiskWriteAccess at hfull
  rw [hkind] at hfull
  obtain ⟨hroot, hnarrow⟩ := Bool.and_eq_true_iff.mp hfull
  refine ⟨hroot, ?_⟩
  intro raw hraw
  by_contra hnarrows
  have hsome : policy.hasWriteNarrowingEntries host = true :=
    Bool.and_eq_true_iff.mpr ⟨by rw [hkind]; rfl,
      List.any_eq_true.mpr ⟨raw, hraw, by simpa using hnarrows⟩⟩
  rw [hsome] at hnarrow
  cases hnarrow

/-- An override resolves to the path of the entry that it overrides, unless that is the root
or `/tmp`. -/
theorem exists_write_of_override [LawfulPathUri Uri] {cwd : Option AbsolutePathBuf}
    (hoverride : policy.hasSameTargetWriteOverride host raw = true)
    (hpath : resolveEntryPath host raw.path cwd = some path) :
    raw.access.rank < FileSystemAccessMode.write.rank ∧
      (⟨path, .write⟩ ∈ policy.resolvedEntriesWithCwd host cwd ∨
        path = slashTmp ∧ host.isDir slashTmp = false ∨ path = AbsolutePathBuf.root) := by
  obtain ⟨candidate, hcandidate, hcond⟩ := List.any_eq_true.mp hoverride
  simp only [Bool.and_eq_true, decide_eq_true_eq] at hcond
  obtain ⟨⟨hwrite, hrank⟩, hshare⟩ := hcond
  rw [canWrite_iff] at hwrite
  rw [hwrite] at hrank
  refine ⟨hrank, ?_⟩
  have hmem : resolveEntryPath host candidate.path cwd = some path →
      ⟨path, .write⟩ ∈ policy.resolvedEntriesWithCwd host cwd := fun hresolved =>
    mem_resolvedEntriesWithCwd.mpr ⟨candidate, hcandidate, hresolved, hwrite⟩
  rcases resolveEntryPath_of_shareTarget hshare hpath with
    hresolved | ⟨hspecial, htmp⟩ | hroot
  · exact .inl (hmem hresolved)
  · cases hdir : host.isDir slashTmp with
    | false => exact .inr (.inl ⟨htmp, rfl⟩)
    | true =>
      left
      refine hmem ?_
      rw [hspecial, htmp]
      exact resolveEntryPath_slashTmp_of_isDir hdir
  · exact .inr (.inr hroot)

/-- **Nothing else closes a path**: under a policy that has full write access, an entry that
decides and is not a `write` entry is a `read` entry for `/tmp`, which is no directory. -/
theorem closed_of_access_ne_write [LawfulPathUri Uri] (hkind : policy.kind = .restricted)
    (hfull : policy.hasFullDiskWriteAccess host = true)
    (h : policy.resolveAccessWithCwd host (some cwd) path ≠ .write) :
    ClosedBySlashTmp host policy cwd path ∧ host.isDir slashTmp = false := by
  obtain ⟨hroot, hkept⟩ := fullDiskWrite_parts hkind hfull
  obtain ⟨root, hmem, hrootPath, hrootWrite⟩ := exists_rootDir_entry host cwd hroot
  have hrootStarts : path.startsWith root.path = true := by
    rw [hrootPath]
    exact startsWith_root path
  rcases resolveAccess_cases host (some cwd) hkind path with
    ⟨hnone, -⟩ | ⟨entry, hentry, hstarts, haccess, hmax⟩
  · rw [hnone root hmem] at hrootStarts
    cases hrootStarts
  · obtain ⟨raw, hraw, hpath, hrawAccess⟩ := mem_resolvedEntriesWithCwd.mp hentry
    have hnotWrite : raw.access.canWrite = false := by
      rw [hrawAccess, ← haccess]
      exact Bool.eq_false_iff.mpr (fun hwrite => h (canWrite_iff.mp hwrite))
    -- a `write` entry at the path of a deciding `read` entry would decide in its place
    have hnone : raw.access.rank < FileSystemAccessMode.write.rank →
        ⟨entry.path, .write⟩ ∉ policy.resolvedEntriesWithCwd host (some cwd) := by
      intro hread hwrite
      rw [hrawAccess] at hread
      have hle := hmax ⟨entry.path, .write⟩ hwrite hstarts
      exact not_precedence_le ⟨entry.path, .write⟩ entry rfl hread hle
    have hnotRoot : raw.access.rank < FileSystemAccessMode.write.rank →
        entry.path ≠ AbsolutePathBuf.root := by
      intro hread hpathRoot
      refine hnone hread ?_
      rw [hpathRoot, ← hrootPath, ← canWrite_iff.mp hrootWrite]
      exact hmem
    rcases override_of_not_narrows hnotWrite (hkept raw hraw) hpath with
      hoverride | ⟨hpathRoot, hread⟩
    · obtain ⟨hread, hwrite | ⟨htmp, hdir⟩ | hpathRoot⟩ := exists_write_of_override hoverride hpath
      · exact absurd hwrite (hnone hread)
      · refine ⟨⟨htmp ▸ hstarts, ⟨entry, hentry, htmp, hrawAccess ▸ hnotWrite⟩, ?_⟩, hdir⟩
        intro other hother hotherWrite hotherStarts
        by_contra hinside
        have hbelow : entry.path.segments <+: other.path.segments := by
          rw [htmp]
          exact AbsolutePathBuf.startsWith_iff.mp (by simpa using hinside)
        have hle := hmax other hother hotherStarts
        have hlength := le_antisymm (length_le_of_precedence_le hle) hbelow.length_le
        have hsame : other.path = entry.path := path_eq_of_length_eq hotherStarts hstarts hlength
        rw [← canWrite_iff.mp hotherWrite, hrawAccess] at hread
        exact not_precedence_le other entry hsame hread hle
      · exact absurd hpathRoot (hnotRoot hread)
    · exact absurd hpathRoot (hnotRoot hread)

theorem ClosedBySlashTmp.slashTmp (h : ClosedBySlashTmp host policy cwd path) :
    ClosedBySlashTmp host policy cwd slashTmp := by
  obtain ⟨hbelow, hclosing, hwrites⟩ := h
  refine ⟨AbsolutePathBuf.startsWith_iff.mpr (List.prefix_refl _), hclosing, ?_⟩
  intro entry hentry hwrite hstarts
  refine hwrites entry hentry hwrite (AbsolutePathBuf.startsWith_iff.mpr ?_)
  exact (AbsolutePathBuf.startsWith_iff.mp hstarts).trans (AbsolutePathBuf.startsWith_iff.mp hbelow)

/-- **The predicates and the paths**: full read access lets every path be read, and full write
access lets every path be written unless `/tmp` is closed. -/
theorem full_disk_access_iff {Url : Type} [DecidableEq Url] {library : UrlLibrary Url}
    (host : SandboxHost) (policy : FileSystemSandboxPolicy (FileUri library))
    (hkind : policy.kind = .restricted) (cwd : AbsolutePathBuf) :
    (policy.hasFullDiskWriteAccess host = true →
      ((∀ path, policy.resolveAccessWithCwd host (some cwd) path = .write ∧
          policy.canWritePathWithCwd host (some cwd) path = true) ↔
        ¬ClosedBySlashTmp host policy cwd slashTmp)) ∧
      (policy.hasFullDiskReadAccess = true →
        ∀ path, policy.canReadPathWithCwd host (some cwd) path = true) := by
  refine ⟨?_, fun hfull path => canRead_of_fullDisk hkind hfull path⟩
  intro hfull
  constructor
  · intro hall hclosed
    exact hclosed.access_ne_write hkind (hall slashTmp).1
  · intro hopen path
    have haccess : policy.resolveAccessWithCwd host (some cwd) path = .write := by
      by_contra hne
      exact hopen (closed_of_access_ne_write hkind hfull hne).1.slashTmp
    refine ⟨haccess, ?_⟩
    unfold canWritePathWithCwd
    rw [haccess, hfull]
    rfl

end

/-! ### A `read` entry for `/tmp` -/

/-- The URLs of paths in which nothing has to be escaped: `file:///` and the names. -/
def plainUrls : UrlLibrary AbsolutePathBuf where
  asStr url := "file:///" ++ "/".intercalate (url.segments.map Subtype.val)
  hostStr _ := none
  path url := "/" ++ "/".intercalate (url.segments.map Subtype.val)
  pathSegments url := some (url.segments.map Subtype.val)
  toFilePath := some
  fromFilePath := some
  parse _ := none
  decodeBinary text := text.toList.flatMap String.utf8EncodeChar
  base64Encode _ := ""
  base64Decode _ := none
  pathBytes _ := []
  pathOfBytes _ := none

/-- The root may be written, and so may `:slash_tmp`; `/tmp` itself is `read`. -/
def slashTmpPolicy : FileSystemSandboxPolicy (FileUri plainUrls) where
  kind := .restricted
  entries := [⟨.special .root, .write⟩, ⟨.path ⟨slashTmp⟩, .read⟩, ⟨.special .slashTmp, .write⟩]

/-- A host on which `/tmp` is a directory. -/
def slashTmpHost : SandboxHost := { bareHost with isDir := fun path => path == slashTmp }

/-- Where `/tmp` is a directory the policy has full write access and grants it. -/
theorem full_disk_access_slashTmp :
    slashTmpPolicy.hasFullDiskWriteAccess slashTmpHost = true ∧
      ((∀ path, slashTmpPolicy.resolveAccessWithCwd slashTmpHost (some workDir) path = .write ∧
          slashTmpPolicy.canWritePathWithCwd slashTmpHost (some workDir) path = true) ↔
        ¬ClosedBySlashTmp slashTmpHost slashTmpPolicy workDir slashTmp) :=
  ⟨by decide +kernel,
    (full_disk_access_iff slashTmpHost slashTmpPolicy rfl workDir).1 (by decide +kernel)⟩

/-- **Full write access to a disk of which a part is read-only**: where `/tmp` is no directory
the same policy still has full write access, and `/tmp` may not be written. -/
theorem full_disk_policy_closes_slashTmp :
    slashTmpPolicy.kind = .restricted ∧
      slashTmpPolicy.hasFullDiskWriteAccess bareHost = true ∧
      slashTmpPolicy.resolveAccessWithCwd bareHost (some workDir) slashTmp = .read ∧
      slashTmpPolicy.canWritePathWithCwd bareHost (some workDir) slashTmp = false :=
  ⟨rfl, by decide +kernel, by decide +kernel, by decide +kernel⟩

end Rivloom.Sandbox
