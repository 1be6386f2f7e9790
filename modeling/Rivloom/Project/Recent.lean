import Mathlib.Data.List.Sort
import Mathlib.Data.List.Dedup
import Mathlib.Data.String.Basic
import Rivloom.Lib.Action
import Rivloom.Lib.CodecRecord
import Rivloom.Lib.Sha256

/-!
# Recent projects

The desktop app remembers the projects that were opened last, twenty at most
(`project/service.rs`, `project/storage.rs`). The list is sorted by the time a project was opened
– the newest first –, has every project once, and is cut off after the twentieth
(`Rivloom.Project.normalizeProjects`). It is kept in memory and written to a file; a failure to
write it is only a warning. A project that is on the list is *registered*: everything else in the
app asks for it by its id, which `Rivloom.Project.ProjectService.lookupProject` looks up in the
list.

Opening a project puts it on the list with the time of the clock. Since the list is sorted and cut
off after that, the project that was just opened is on the list exactly if fewer than twenty others
come before it (`Rivloom.Project.ProjectService.select_registers_iff`) – which a clock that was set
back can bring about.

The file system is an input, `Rivloom.Project.FileSystem`, over any type of paths.
-/

namespace Rivloom.Project

open Rivloom.Action (bind_eq_ok bind_of_ok ensure lift modify orElse)

/-! ### The list -/

structure StoredProject where
  id : String
  path : String
  name : String
  lastOpenedAt : Int64
  deriving DecidableEq

def maxProjects : ℕ := 20

/-- **The order of the list**: the project opened last comes first, and the ids decide. -/
def StoredProject.before (left right : StoredProject) : Prop :=
  right.lastOpenedAt < left.lastOpenedAt ∨
    (left.lastOpenedAt = right.lastOpenedAt ∧ left.id ≤ right.id)

instance (left right : StoredProject) : Decidable (left.before right) :=
  inferInstanceAs (Decidable (_ ∨ _))

/-- The first project with each id. -/
def retainFirst : List String → List StoredProject → List StoredProject
  | _, [] => []
  | ids, project :: projects =>
    if project.id ∈ ids then retainFirst ids projects
    else project :: retainFirst (project.id :: ids) projects

/-- **The list as it is kept.** -/
def normalizeProjects (projects : List StoredProject) : List StoredProject :=
  (retainFirst [] (projects.insertionSort StoredProject.before)).take maxProjects

/-! ### The file -/

structure StorageDocument where
  version : UInt32
  projects : List StoredProject

def storageVersion : UInt32 := 1

def maxStorageBytes : ℕ := 1024 * 1024

def StoredProject.codec : Codec StoredProject :=
  .record (.field "id" .string <| .field "path" .string <| .field "name" .string <|
      .field "lastOpenedAt" .int64 .nil)
    ⟨fun v => (v.id, v.path, v.name, v.lastOpenedAt, ()), fun (a, b, c, d, _) => ⟨a, b, c, d⟩,
      fun _ => rfl, fun _ => rfl⟩ (by decide)

def StorageDocument.codec : Codec StorageDocument :=
  .record (.field "version" .uint32 <| .field "projects" (.list StoredProject.codec) .nil)
    ⟨fun v => (v.version, v.projects, ()), fun (a, b, _) => ⟨a, b⟩, fun _ => rfl, fun _ => rfl⟩
    (by decide)

/-- What is read of a document before anything else: its version. -/
structure StorageEnvelope where
  version : UInt32

def StorageEnvelope.codec : Codec StorageEnvelope :=
  .record (.field "version" .uint32 .nil)
    ⟨fun v => (v.version, ()), fun (a, _) => ⟨a⟩, fun _ => rfl, fun _ => rfl⟩ (by decide)

inductive StorageError where
  | read | unsupportedVersion | write
  deriving DecidableEq

/-- The directory of the file: the file, if there is one, and the files that were moved out of its
way. -/
structure Disk where
  file : Option ByteArray
  corrupt : List ByteArray

/-- **What the disk does during one call.** -/
structure Io where
  reads : Bool
  renames : Bool
  writes : Bool

/-- The contents of the file for a list. -/
def document (projects : List StoredProject) : ByteArray :=
  StorageDocument.codec.toPretty { version := storageVersion, projects } ++ "\n".toUTF8

namespace RecentProjectStore

def quarantineAndLoadEmpty (io : Io) : Action Disk StorageError (Option StorageDocument) := do
  ensure io.renames .read
  modify fun disk => ⟨none, disk.file.toList ++ disk.corrupt⟩
  return none

/-- What the contents of the file are read as. -/
def parse (io : Io) (contents : ByteArray) : Action Disk StorageError (Option StorageDocument) :=
  if maxStorageBytes < contents.size then lift (.error .read)
  else
    match StorageEnvelope.codec.ofBytes contents with
    | none => quarantineAndLoadEmpty io
    | some envelope =>
      if envelope.version ≠ storageVersion then lift (.error .unsupportedVersion)
      else
        match StorageDocument.codec.ofBytes contents with
        | some document => pure (some document)
        | none => quarantineAndLoadEmpty io

def readDocument (io : Io) : Action Disk StorageError (Option StorageDocument) := do
  ensure io.reads .read
  let disk ← Action.get
  match disk.file with
  | none => return none
  | some contents => parse io contents

def checkVersion : Option StorageDocument → Action Disk StorageError Unit
  | none => return ()
  | some document => ensure (document.version = storageVersion) .unsupportedVersion

def load (io : Io) : Action Disk StorageError (List StoredProject) := do
  let found ← readDocument io
  checkVersion found
  return match found with
    | none => []
    | some document => normalizeProjects document.projects

def save (io : Io) (projects : List StoredProject) : Action Disk StorageError Unit := do
  let found ← readDocument io
  checkVersion found
  ensure io.writes .write
  modify fun disk => { disk with file := some (document (normalizeProjects projects)) }

end RecentProjectStore

/-! ### The service -/

inductive ProjectAvailability where
  | available | missing | unreadable
  deriving DecidableEq

structure LocalProject where
  id : String
  path : String
  name : String
  lastOpenedAt : Int64
  availability : ProjectAvailability
  deriving DecidableEq

inductive PersistenceWarning where
  | recentProjectsNotSaved
  deriving DecidableEq

structure ProjectSelection where
  project : LocalProject
  warning : Option PersistenceWarning
  deriving DecidableEq

inductive ProjectServiceError where
  | invalidPath | notDirectory | unreadable | nonUnicodePath | notFound | unavailable | storage
  deriving DecidableEq

/-- Why nothing is known of a path. -/
inductive MetadataError where
  | notFound | other
  deriving DecidableEq

/-- **The file system**, over a type of paths. Where a path is a text, it is the path that this
text stands for; and a path without links leads to itself. -/
structure FileSystem (π : Type) where
  canonicalize : π → Option π
  /-- Whether a path leads to a directory. -/
  metadata : π → Except MetadataError Bool
  readable : π → Bool
  toStr : π → Option String
  ofStr : String → π
  /-- The last name of a path, and its text. -/
  fileName : π → Option (Option String)
  ofStr_toStr : ∀ p s, toStr p = some s → ofStr s = p
  canonicalize_canonicalize : ∀ p q, canonicalize p = some q → canonicalize q = some q

structure ProjectService where
  disk : Disk
  projects : Option (List StoredProject)

/-- What is there, or a failure. -/
def okOr {α : Type} (o : Option α) (e : ProjectServiceError) : Except ProjectServiceError α :=
  match o with
  | some a => .ok a
  | none => .error e

def localProject (project : StoredProject) (availability : ProjectAvailability) : LocalProject :=
  { project with availability }

section Paths

variable {π : Type} (fs : FileSystem π)

def pathToUtf8 (path : π) : Except ProjectServiceError String :=
  okOr (fs.toStr path) .nonUnicodePath

def projectIdForPath (path : π) : Except ProjectServiceError String := do
  let text ← pathToUtf8 fs path
  return "project-v1-" ++ (Sha256.digest text.toUTF8).hex

def displayName (path : π) : Except ProjectServiceError String :=
  match fs.fileName path with
  | some name => okOr name .nonUnicodePath
  | none => pathToUtf8 fs path

/-- The path without links, if it is a directory that can be read, and its text. -/
def validateSelectedPath (selectedPath : π) : Except ProjectServiceError (π × String) := do
  let path ← okOr (fs.canonicalize selectedPath) .invalidPath
  let isDir ← (fs.metadata path).mapError fun _ => .invalidPath
  Except.failIf (!isDir) .notDirectory
  Except.failIf (!fs.readable path) .unreadable
  let text ← pathToUtf8 fs path
  return (path, text)

end Paths

namespace ProjectService

/-- Work on the disk. -/
def onDisk {α : Type} (x : Action Disk StorageError α) :
    Action ProjectService ProjectServiceError α :=
  x.focus ProjectService.disk (fun disk s => { s with disk }) fun _ => .storage

def cachedProjects (io : Io) : Action ProjectService ProjectServiceError (List StoredProject) := do
  let s ← Action.get
  match s.projects with
  | some projects => return projects
  | none => do
    let projects ← onDisk (RecentProjectStore.load io)
    modify fun s => { s with projects := some projects }
    return projects

def cacheProjects (projects : List StoredProject) :
    Action ProjectService ProjectServiceError Unit :=
  modify fun s => { s with projects := some projects }

variable {π : Type} (fs : FileSystem π)

/-- **A project is opened**, or the choice is cancelled. -/
def selectProject (io saveIo : Io) (now : Int64) :
    Option π → Action ProjectService ProjectServiceError (Option ProjectSelection)
  | none => return none
  | some selectedPath => do
    let (path, text) ← lift (validateSelectedPath fs selectedPath)
    let id ← lift (projectIdForPath fs path)
    let name ← lift (displayName fs path)
    let project : StoredProject := { id, path := text, name, lastOpenedAt := now }
    let projects ← cachedProjects io
    let projects := normalizeProjects (projects.filter (fun candidate => candidate.id ≠ id) ++
      [project])
    cacheProjects projects
    let saved ← Action.attempt (onDisk (RecentProjectStore.save saveIo projects))
    return some
      { project := localProject project .available
        warning := match saved with
          | .ok _ => none
          | .error _ => some .recentProjectsNotSaved }

/-- **A registered project**, by its id. -/
def lookupProject (io : Io) (projectId : String) :
    Action ProjectService ProjectServiceError LocalProject := do
  let projects ← cachedProjects io
  let stored ← orElse (projects.find? fun project => project.id == projectId) .notFound
  let (path, _) ← lift (validateSelectedPath fs (fs.ofStr stored.path))
  let id ← lift (projectIdForPath fs path)
  ensure (id = stored.id) .unavailable
  return localProject stored .available

end ProjectService

/-! ### The order -/

namespace StoredProject

variable {a b c : StoredProject}

theorem before_iff : a.before b ↔ b.lastOpenedAt.toInt < a.lastOpenedAt.toInt ∨
    (a.lastOpenedAt.toInt = b.lastOpenedAt.toInt ∧ a.id ≤ b.id) := by
  rw [before, Int64.lt_iff_toInt_lt, Int64.toInt_inj]

theorem before_trans (h : a.before b) (h' : b.before c) : a.before c := by
  rw [before_iff] at h h' ⊢
  rcases h with h | ⟨h, hid⟩ <;> rcases h' with h' | ⟨h', hid'⟩
  · exact Or.inl (h'.trans h)
  · exact Or.inl (h' ▸ h)
  · exact Or.inl (h ▸ h')
  · exact Or.inr ⟨h.trans h', hid.trans hid'⟩

theorem before_total (a b : StoredProject) : a.before b ∨ b.before a := by
  rw [before_iff, before_iff]
  rcases lt_trichotomy a.lastOpenedAt.toInt b.lastOpenedAt.toInt with h | h | h
  · exact Or.inr (Or.inl h)
  · rcases le_total a.id b.id with hid | hid
    · exact Or.inl (Or.inr ⟨h, hid⟩)
    · exact Or.inr (Or.inr ⟨h.symm, hid⟩)
  · exact Or.inl (Or.inl h)

theorem id_eq_of_before (h : a.before b) (h' : b.before a) : a.id = b.id := by
  rw [before_iff] at h h'
  rcases h with h | ⟨h, hid⟩ <;> rcases h' with h' | ⟨h', hid'⟩
  · omega
  · omega
  · omega
  · exact le_antisymm hid hid'

instance : IsTrans StoredProject before := ⟨fun _ _ _ => before_trans⟩

instance : Std.Total before := ⟨before_total⟩

end StoredProject

/-! ### The list -/

section Lists

variable {ids : List String} {projects : List StoredProject} {project : StoredProject}

theorem retainFirst_sublist (ids : List String) (projects : List StoredProject) :
    (retainFirst ids projects).Sublist projects := by
  induction projects generalizing ids with
  | nil => exact List.Sublist.refl []
  | cons project projects ih =>
    rw [retainFirst]
    split
    · exact (ih ids).cons project
    · exact (ih _).cons_cons project

theorem id_notMem_of_mem_retainFirst (h : project ∈ retainFirst ids projects) :
    project.id ∉ ids := by
  induction projects generalizing ids with
  | nil => cases h
  | cons first projects ih =>
    rw [retainFirst] at h
    split at h
    · exact ih h
    · next hfirst =>
      rcases List.mem_cons.mp h with rfl | h
      · exact hfirst
      · exact fun hmem => ih h (List.mem_cons_of_mem _ hmem)

theorem nodup_retainFirst (ids : List String) (projects : List StoredProject) :
    ((retainFirst ids projects).map StoredProject.id).Nodup := by
  induction projects generalizing ids with
  | nil => exact List.nodup_nil
  | cons first projects ih =>
    rw [retainFirst]
    split
    · exact ih ids
    · rw [List.map_cons, List.nodup_cons]
      refine ⟨fun hmem => ?_, ih _⟩
      obtain ⟨project, hproject, hid⟩ := List.mem_map.mp hmem
      exact id_notMem_of_mem_retainFirst hproject (hid ▸ List.mem_cons_self)

theorem exists_mem_retainFirst (hsorted : projects.Pairwise StoredProject.before)
    (h : project ∈ projects) (hid : project.id ∉ ids) :
    ∃ kept ∈ retainFirst ids projects, kept.id = project.id ∧
      (kept = project ∨ kept.before project) := by
  induction projects generalizing ids with
  | nil => cases h
  | cons first projects ih =>
    obtain ⟨hfirst, hrest⟩ := List.pairwise_cons.mp hsorted
    rw [retainFirst]
    rcases List.mem_cons.mp h with rfl | hmem
    · rw [if_neg hid]
      exact ⟨project, List.mem_cons_self, rfl, Or.inl rfl⟩
    · split
      · exact ih hrest hmem hid
      · by_cases hsame : project.id = first.id
        · exact ⟨first, List.mem_cons_self, hsame.symm, Or.inr (hfirst project hmem)⟩
        · have hnot : project.id ∉ first.id :: ids := fun h => (List.mem_cons.mp h).elim hsame hid
          obtain ⟨kept, hkept, hrel⟩ := ih hrest hmem hnot
          exact ⟨kept, List.mem_cons_of_mem _ hkept, hrel⟩

theorem sorted_normalizeProjects (projects : List StoredProject) :
    (normalizeProjects projects).Pairwise StoredProject.before :=
  ((List.pairwise_insertionSort StoredProject.before projects).sublist
    (retainFirst_sublist [] _)).sublist (List.take_sublist _ _)

theorem nodup_normalizeProjects (projects : List StoredProject) :
    ((normalizeProjects projects).map StoredProject.id).Nodup :=
  (nodup_retainFirst [] _).sublist ((List.take_sublist _ _).map _)

theorem mem_of_mem_normalizeProjects (h : project ∈ normalizeProjects projects) :
    project ∈ projects :=
  (List.mem_insertionSort _).mp ((retainFirst_sublist [] _).subset (List.mem_of_mem_take h))

/-- The project that is opened, and what is left of the list. -/
def reopened (projects : List StoredProject) (project : StoredProject) : List StoredProject :=
  projects.filter (fun candidate => candidate.id ≠ project.id) ++ [project]

theorem ids_subset_retainFirst (projects : List StoredProject) (project : StoredProject) :
    project.id :: projects.map StoredProject.id ⊆
      (retainFirst [] ((reopened projects project).insertionSort StoredProject.before)).map
        StoredProject.id := by
  intro id hid
  obtain ⟨other, hother, rfl⟩ : ∃ other ∈ reopened projects project, other.id = id := by
    rcases List.mem_cons.mp hid with rfl | hid
    · exact ⟨project, List.mem_append_right _ List.mem_cons_self, rfl⟩
    · obtain ⟨other, hother, rfl⟩ := List.mem_map.mp hid
      by_cases hsame : other.id = project.id
      · exact ⟨project, List.mem_append_right _ List.mem_cons_self, hsame.symm⟩
      · exact ⟨other, List.mem_append_left _ (List.mem_filter.mpr ⟨hother, by simpa⟩), rfl⟩
  obtain ⟨kept, hkept, hid, -⟩ := exists_mem_retainFirst (List.pairwise_insertionSort _ _)
    ((List.mem_insertionSort _).mpr hother) List.not_mem_nil
  exact hid ▸ List.mem_map_of_mem hkept

/-- **The other projects that come before a project** with an id that is opened at a time. -/
def overtaking (projects : List StoredProject) (id : String) (now : Int64) : List String :=
  ((projects.filter fun other => other.id ≠ id ∧ (now < other.lastOpenedAt ∨
    (other.lastOpenedAt = now ∧ other.id ≤ id))).map StoredProject.id).dedup

theorem mem_reopened {other : StoredProject} :
    other ∈ reopened projects project ↔
      (other ∈ projects ∧ other.id ≠ project.id) ∨ other = project := by
  simp [reopened]

theorem mem_overtaking {id : String} : id ∈ overtaking projects project.id project.lastOpenedAt ↔
    ∃ other ∈ projects, other.id = id ∧ other.id ≠ project.id ∧ other.before project := by
  simp only [overtaking, List.mem_dedup, List.mem_map, List.mem_filter, decide_eq_true_eq,
    StoredProject.before]
  constructor
  · rintro ⟨other, ⟨hmem, hne, hbefore⟩, rfl⟩
    exact ⟨other, hmem, rfl, hne, hbefore⟩
  · rintro ⟨other, hmem, rfl, hne, hbefore⟩
    exact ⟨other, ⟨hmem, hne, hbefore⟩, rfl⟩

/-- **What comes before the project** that is opened, on the list before it is cut off. -/
theorem exists_split_reopened (projects : List StoredProject) (project : StoredProject) :
    ∃ earlier later,
      retainFirst [] ((reopened projects project).insertionSort StoredProject.before) =
        earlier ++ project :: later ∧ project.id ∉ earlier.map StoredProject.id ∧
      earlier.length = (overtaking projects project.id project.lastOpenedAt).length := by
  set sorted := (reopened projects project).insertionSort StoredProject.before with hsorted
  have hpairwise : sorted.Pairwise StoredProject.before :=
    List.pairwise_insertionSort StoredProject.before _
  have hmem {other : StoredProject} : other ∈ sorted ↔
      (other ∈ projects ∧ other.id ≠ project.id) ∨ other = project :=
    (List.mem_insertionSort _).trans mem_reopened
  have hkept : project ∈ retainFirst [] sorted := by
    obtain ⟨kept, hkept, hid, -⟩ := exists_mem_retainFirst hpairwise (hmem.mpr (Or.inr rfl))
      (List.not_mem_nil : project.id ∉ [])
    rcases hmem.mp ((retainFirst_sublist [] sorted).subset hkept) with ⟨-, hne⟩ | rfl
    · exact absurd hid hne
    · exact hkept
  obtain ⟨earlier, later, hsplit⟩ := List.append_of_mem hkept
  have hnodup := nodup_retainFirst [] sorted
  have hretained := hpairwise.sublist (retainFirst_sublist [] sorted)
  rw [hsplit] at hnodup hretained
  rw [List.map_append, List.map_cons, List.nodup_append] at hnodup
  obtain ⟨hnodupEarlier, hnodupLater, hdisjoint⟩ := hnodup
  rw [List.pairwise_append, List.pairwise_cons] at hretained
  obtain ⟨-, ⟨hafter, -⟩, hbefore⟩ := hretained
  have hnotMem : project.id ∉ earlier.map StoredProject.id := fun hin =>
    hdisjoint _ hin _ List.mem_cons_self rfl
  refine ⟨earlier, later, hsplit, hnotMem, ?_⟩
  -- the ids of the earlier ones are those of the projects that come before
  have hperm : (earlier.map StoredProject.id).Perm
      (overtaking projects project.id project.lastOpenedAt) := by
    refine (List.perm_ext_iff_of_nodup hnodupEarlier (List.nodup_dedup _)).mpr fun id => ?_
    change _ ↔ id ∈ overtaking projects project.id project.lastOpenedAt
    rw [mem_overtaking]
    constructor
    · intro hin
      obtain ⟨other, hother, rfl⟩ := List.mem_map.mp hin
      have hne : other.id ≠ project.id := fun heq => hnotMem (heq ▸ hin)
      have hretain : other ∈ retainFirst [] sorted := hsplit ▸ List.mem_append_left _ hother
      rcases hmem.mp ((retainFirst_sublist [] sorted).subset hretain) with ⟨hprojects, -⟩ | rfl
      · exact ⟨other, hprojects, rfl, hne, hbefore other hother project List.mem_cons_self⟩
      · exact absurd rfl hne
    · rintro ⟨other, hother, rfl, hne, hfirst⟩
      obtain ⟨kept, hkept, hid, hrel⟩ := exists_mem_retainFirst hpairwise
        (hmem.mpr (Or.inl ⟨hother, hne⟩)) (List.not_mem_nil : other.id ∉ [])
      have hkeptFirst : kept.before project := by
        rcases hrel with rfl | hrel
        · exact hfirst
        · exact StoredProject.before_trans hrel hfirst
      rw [hsplit] at hkept
      rcases List.mem_append.mp hkept with hin | hin
      · exact List.mem_map.mpr ⟨kept, hin, hid⟩
      · rcases List.mem_cons.mp hin with rfl | hin
        · exact absurd hid.symm hne
        · exact absurd ((StoredProject.id_eq_of_before hkeptFirst (hafter kept hin)).symm.trans
            hid).symm
            hne
  rw [← hperm.length_eq, List.length_map]

/-- **The project that is opened is on the list exactly if fewer than twenty come before it.** -/
theorem mem_normalizeProjects_iff (projects : List StoredProject) (project : StoredProject) :
    project.id ∈ (normalizeProjects (reopened projects project)).map StoredProject.id ↔
      (overtaking projects project.id project.lastOpenedAt).length < maxProjects := by
  obtain ⟨earlier, later, hsplit, hnotMem, hlength⟩ := exists_split_reopened projects project
  rw [normalizeProjects, hsplit, ← hlength]
  constructor
  · intro hin
    by_contra hfull
    rw [List.take_append_of_le_length (Nat.not_lt.mp hfull)] at hin
    exact hnotMem ((List.take_subset _ _) |> fun h => List.map_subset _ h hin)
  · intro hroom
    obtain ⟨n, hn⟩ := Nat.exists_eq_add_of_lt hroom
    rw [hn, Nat.add_assoc, List.take_length_add_append, List.take_succ_cons]
    exact List.mem_map_of_mem (List.mem_append_right _ List.mem_cons_self)

end Lists

/-! ### Opening a project -/

namespace ProjectService

theorem okOr_eq_ok {α : Type} {o : Option α} {e : ProjectServiceError} {a : α} :
    okOr o e = .ok a ↔ o = some a := by
  cases o with
  | none => exact ⟨nofun, nofun⟩
  | some b =>
    exact ⟨fun h => congrArg some (Except.ok.inj h),
      fun h => congrArg Except.ok (Option.some.inj h)⟩

section Select

variable {π : Type} {fs : FileSystem π} {io saveIo : Io} {now : Int64} {s s' : ProjectService}

variable (fs) in
/-- The id of the project that a choice leads to. -/
def selectedId : Option π → Except ProjectServiceError String
  | none => .error .invalidPath
  | some selectedPath => do
    let (path, _) ← validateSelectedPath fs selectedPath
    projectIdForPath fs path

/-- A path that was found in order is found in order again, by its text. -/
theorem validateSelectedPath_again {selectedPath path : π} {text : String}
    (h : validateSelectedPath fs selectedPath = .ok (path, text)) :
    validateSelectedPath fs (fs.ofStr text) = .ok (path, text) := by
  simp only [validateSelectedPath, Except.bind_eq_ok, okOr_eq_ok] at h
  obtain ⟨path', hpath, isDir, hmetadata, _, hdir, _, hreadable, text', htext, h⟩ := h
  cases h
  have hof : fs.ofStr text = path := fs.ofStr_toStr path text (okOr_eq_ok.mp htext)
  have hcanonical := fs.canonicalize_canonicalize selectedPath path hpath
  simp only [validateSelectedPath, Except.bind_eq_ok, okOr_eq_ok]
  exact ⟨path, by rw [hof, hcanonical], isDir, hmetadata, (), hdir, (), hreadable, text, htext, rfl⟩

theorem cachedProjects_of_some {projects : List StoredProject} (h : s.projects = some projects)
    (io : Io) : cachedProjects io s = (.ok projects, s) := by
  rw [cachedProjects, bind_of_ok (rfl : Action.get s = (.ok s, s)), h]
  rfl

/-- **What a choice does** that returns a project. -/
theorem selectProject_eq_ok {selected : Option π} {selection : ProjectSelection}
    (h : selectProject fs io saveIo now selected s = (.ok (some selection), s')) :
    ∃ selectedPath path text id name previous, selected = some selectedPath ∧
      validateSelectedPath fs selectedPath = .ok (path, text) ∧ projectIdForPath fs path = .ok id ∧
      (cachedProjects io s).1 = .ok previous ∧
      selection.project = localProject ⟨id, text, name, now⟩ .available ∧
      s'.projects = some (normalizeProjects (reopened previous ⟨id, text, name, now⟩)) := by
  cases selected with
  | none => cases h
  | some selectedPath =>
    obtain ⟨⟨path, text⟩, s₁, hvalidate, h⟩ := bind_eq_ok h
    obtain ⟨hpath, rfl⟩ := Prod.mk.inj hvalidate
    obtain ⟨id, s₂, hidentify, h⟩ := bind_eq_ok h
    obtain ⟨hid, rfl⟩ := Prod.mk.inj hidentify
    obtain ⟨name, s₃, hname, h⟩ := bind_eq_ok h
    obtain ⟨-, rfl⟩ := Prod.mk.inj hname
    obtain ⟨previous, s₄, hprevious, h⟩ := bind_eq_ok h
    obtain ⟨_, s₅, hcache, h⟩ := bind_eq_ok h
    obtain ⟨-, rfl⟩ := Prod.mk.inj hcache
    obtain ⟨saved, s₆, hsave, h⟩ := bind_eq_ok h
    obtain ⟨-, rfl⟩ := Prod.mk.inj hsave
    cases h
    exact ⟨selectedPath, path, text, id, name, previous, rfl, hpath,
      hid, by rw [hprevious], rfl, rfl⟩

/-- **A project is registered**: it is on the list, the list is in order, and what else is on it was
there before. -/
structure Registers (previous projects : List StoredProject) (id : String) : Prop where
  mem : id ∈ projects.map StoredProject.id
  nodup : (projects.map StoredProject.id).Nodup
  sorted : projects.Pairwise StoredProject.before
  length : projects.length ≤ maxProjects
  kept : ∀ project ∈ projects, project.id ≠ id → project ∈ previous

theorem lookupProject_of_mem {selectedPath path : π} {text id name : String}
    {previous : List StoredProject}
    (hpath : validateSelectedPath fs selectedPath = .ok (path, text))
    (hid : projectIdForPath fs path = .ok id)
    (hs : s.projects = some (normalizeProjects (reopened previous ⟨id, text, name, now⟩)))
    (hmem : id ∈ (normalizeProjects (reopened previous ⟨id, text, name, now⟩)).map StoredProject.id)
    (io : Io) :
    lookupProject fs io id s = (.ok (localProject ⟨id, text, name, now⟩ .available), s) := by
  obtain ⟨found, hfound, hfoundId⟩ := List.mem_map.mp hmem
  have hsome : ((normalizeProjects (reopened previous ⟨id, text, name, now⟩)).find?
      fun project => project.id == id).isSome = true :=
    List.find?_isSome.mpr ⟨found, hfound, by simpa using hfoundId⟩
  obtain ⟨stored, hstored⟩ := Option.isSome_iff_exists.mp hsome
  have hstoredId : stored.id = id := by simpa using List.find?_some hstored
  obtain rfl : stored = ⟨id, text, name, now⟩ := by
    rcases mem_reopened.mp (mem_of_mem_normalizeProjects (List.mem_of_find?_eq_some hstored)) with
      ⟨-, hne⟩ | rfl
    · exact absurd hstoredId hne
    · rfl
  rw [lookupProject, bind_of_ok (cachedProjects_of_some hs io), hstored,
    bind_of_ok (rfl : orElse (some _) _ s = (.ok _, s)),
    validateSelectedPath_again hpath,
    bind_of_ok (rfl : lift _ s = (.ok (path, text), s))]
  dsimp only
  rw [hid, bind_of_ok (rfl : lift _ s = (.ok id, s)),
    bind_of_ok (Action.ensure_of_true (by simp) _ s)]
  rfl

theorem lookupProject_of_notMem {projects : List StoredProject} {id : String}
    (hs : s.projects = some projects) (hnot : id ∉ projects.map StoredProject.id) (io : Io) :
    lookupProject fs io id s = (.error .notFound, s) := by
  have hnone : (projects.find? fun project => project.id == id) = none := by
    refine List.find?_eq_none.mpr fun project hproject hid => hnot ?_
    exact eq_of_beq hid ▸ List.mem_map_of_mem hproject
  rw [lookupProject, bind_of_ok (cachedProjects_of_some hs io), hnone,
    Action.bind_of_error (rfl : orElse none _ s = (.error _, s))]

/-- **A project that is opened is registered exactly if fewer than twenty other projects come before
it**, that is, were opened at a later time of the clock, or at the same time with a smaller id. -/
theorem select_registers_iff {selected : Option π} {selection : ProjectSelection}
    (h : selectProject fs io saveIo now selected s = (.ok (some selection), s')) (lookupIo : Io) :
    ∃ id previous projects, selectedId fs selected = .ok id ∧
      (cachedProjects io s).1 = .ok previous ∧ s'.projects = some projects ∧
      selection.project.id = id ∧
      ((Registers previous projects id ∧
          (lookupProject fs lookupIo id s').1 = .ok selection.project) ↔
        (overtaking previous id now).length < maxProjects) := by
  obtain ⟨selectedPath, path, text, id, name, previous, rfl, hpath, hid, hprevious, hproject, hs⟩ :=
    selectProject_eq_ok h
  refine ⟨id, previous, _, ?_, hprevious, hs, by rw [hproject]; rfl, ?_⟩
  · rw [selectedId, hpath]
    exact hid
  · have hiff := mem_normalizeProjects_iff previous ⟨id, text, name, now⟩
    constructor
    · rintro ⟨hregisters, -⟩
      exact hiff.mp hregisters.mem
    · intro hroom
      have hmem := hiff.mpr hroom
      refine ⟨⟨hmem, nodup_normalizeProjects _, sorted_normalizeProjects _, List.length_take_le _ _,
        fun project hin hne => ?_⟩, ?_⟩
      · rcases mem_reopened.mp (mem_of_mem_normalizeProjects hin) with ⟨hold, -⟩ | rfl
        · exact hold
        · exact absurd rfl hne
      · rw [lookupProject_of_mem hpath hid hs hmem lookupIo, hproject]

end Select

/-! ### A clock that was set back -/

/-- A file system with readable directories only. -/
def demoFileSystem : FileSystem String where
  canonicalize := some
  metadata _ := .ok true
  readable _ := true
  toStr := some
  ofStr := id
  fileName _ := none
  ofStr_toStr _ _ h := (Option.some.inj h).symm
  canonicalize_canonicalize _ _ h := h ▸ rfl

def demoIo : Io := ⟨true, true, true⟩

/-- Twenty projects that were opened at the time 1. -/
def demoProjects : List StoredProject :=
  ["a", "b", "c", "d", "e", "f", "g", "h", "i", "j", "k", "l", "m", "n", "o", "p", "q", "r", "s",
    "t"].map fun id => ⟨id, "/srv/" ++ id, id, 1⟩

theorem notMem_demoProjects {path id : String}
    (hid : projectIdForPath demoFileSystem path = .ok id) :
    id ∉ demoProjects.map StoredProject.id := by
  have hsize : id.utf8ByteSize = 75 := by
    obtain ⟨text', -, hid⟩ := Except.bind_eq_ok.mp hid
    cases hid
    rw [String.utf8ByteSize_append, (Sha256.digest _).hex_spec.1]
    rfl
  have hone : ∀ other ∈ demoProjects.map StoredProject.id, other.utf8ByteSize = 1 := by
    decide +kernel
  intro hmem
  rw [hone id hmem] at hsize
  cases hsize

/-- **The twenty-first project is registered**: nineteen of the others are kept, and one is not. -/
theorem select_registers_demo : ∃ selection s' projects,
    selectProject demoFileSystem demoIo demoIo 7 (some "/srv/project")
      ⟨⟨none, []⟩, some demoProjects⟩ = (.ok (some selection), s') ∧
    s'.projects = some projects ∧ Registers demoProjects projects selection.project.id ∧
    projects.length = 20 ∧ (∃ dropped ∈ demoProjects, dropped ∉ projects) ∧
    (lookupProject demoFileSystem demoIo selection.project.id s').1 = .ok selection.project := by
  obtain ⟨selection, s', hselect⟩ : ∃ selection s',
      selectProject demoFileSystem demoIo demoIo 7 (some "/srv/project")
        ⟨⟨none, []⟩, some demoProjects⟩ = (.ok (some selection), s') := ⟨_, _, rfl⟩
  obtain ⟨-, path, text, id, name, previous, -, -, hid, hprevious, hproject, hs⟩ :=
    selectProject_eq_ok hselect
  obtain rfl : demoProjects = previous := Except.ok.inj hprevious
  obtain ⟨_, _, projects, -, hprevious, hprojects, rfl, hiff⟩ := select_registers_iff hselect demoIo
  cases hprevious
  obtain rfl := Option.some.inj (hs.symm.trans hprojects)
  have hselected : selection.project.id = id := by
    rw [hproject]
    rfl
  have hearlier : ∀ other ∈ demoProjects, ¬(7 : Int64) < other.lastOpenedAt ∧
      other.lastOpenedAt ≠ 7 := by decide +kernel
  have hovertaking : overtaking demoProjects selection.project.id 7 = [] := by
    rw [overtaking, List.filter_eq_nil_iff.mpr fun other hother => ?_]
    · rfl
    · simp [hearlier other hother]
  obtain ⟨hregisters, hlookup⟩ := hiff.mpr (by rw [hovertaking]; exact Nat.succ_pos 19)
  have hnew := notMem_demoProjects hid
  have hids : (id :: demoProjects.map StoredProject.id).Nodup :=
    List.nodup_cons.mpr ⟨hnew, by decide +kernel⟩
  refine ⟨selection, s', _, hselect, hprojects, hregisters, ?_, ?_, hlookup⟩
  · -- twenty-one ids are left of the sorted list, and it is cut at twenty
    have hlength := (List.subperm_of_subset hids (ids_subset_retainFirst demoProjects
      ⟨id, text, name, 7⟩)).length_le
    rw [List.length_map] at hlength
    rw [normalizeProjects, List.length_take]
    exact min_eq_left ((Nat.le_succ 20).trans hlength)
  · by_contra hall
    push Not at hall
    have hlength := (List.subperm_of_subset hids (List.cons_subset.mpr
      ⟨hselected ▸ hregisters.mem, List.map_subset _ hall⟩)).length_le
    rw [List.length_map] at hlength
    exact absurd (hlength.trans hregisters.length) (Nat.not_succ_le_self 20)

/-- **The clock was set back**: a project is opened at the time 0, after twenty others at the time
1. The choice returns it, without a warning, and it is not registered. -/
theorem select_loses_project : ∃ selection s',
    selectProject demoFileSystem demoIo demoIo 0 (some "/srv/project")
      ⟨⟨none, []⟩, some demoProjects⟩ = (.ok (some selection), s') ∧ selection.warning = none ∧
    (∀ projects, s'.projects = some projects →
      selection.project.id ∉ projects.map StoredProject.id) ∧
    (lookupProject demoFileSystem demoIo selection.project.id s').1 = .error .notFound := by
  obtain ⟨selection, s', hselect, hwarning⟩ : ∃ selection s',
      selectProject demoFileSystem demoIo demoIo 0 (some "/srv/project")
        ⟨⟨none, []⟩, some demoProjects⟩ = (.ok (some selection), s') ∧ selection.warning = none :=
    ⟨_, _, rfl, rfl⟩
  obtain ⟨-, path, text, id, name, previous, -, -, hid, hprevious, hproject, hs⟩ :=
    selectProject_eq_ok hselect
  obtain rfl : demoProjects = previous := Except.ok.inj hprevious
  -- all the others come before it
  have hall : ∀ other ∈ demoProjects, (0 : Int64) < other.lastOpenedAt := by decide +kernel
  have hfilter : demoProjects.filter (fun other => other.id ≠ id ∧
      ((0 : Int64) < other.lastOpenedAt ∨ (other.lastOpenedAt = 0 ∧ other.id ≤ id))) =
        demoProjects := by
    refine List.filter_eq_self.mpr fun other hother => decide_eq_true ⟨fun heq => ?_, ?_⟩
    · exact notMem_demoProjects hid (heq ▸ List.mem_map_of_mem hother)
    · exact Or.inl (hall other hother)
  have hovertaking : (overtaking demoProjects id 0).length = 20 := by
    rw [overtaking, hfilter]
    decide +kernel
  have hnot : id ∉ (normalizeProjects (reopened demoProjects ⟨id, text, name, 0⟩)).map
      StoredProject.id := by
    intro hmem
    have hlt := (mem_normalizeProjects_iff demoProjects ⟨id, text, name, 0⟩).mp hmem
    exact absurd hlt (by rw [hovertaking]; decide)
  have hselected : selection.project.id = id := by
    rw [hproject]
    rfl
  refine ⟨selection, s', hselect, hwarning, fun projects hprojects => ?_, ?_⟩
  · rw [hs] at hprojects
    cases hprojects
    rw [hselected]
    exact hnot
  · rw [hselected, lookupProject_of_notMem hs hnot]

end ProjectService

end Rivloom.Project
