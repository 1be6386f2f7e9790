import Rivloom.Lib.RustText

/-!
# Absolute paths

A path that is *absolute and normalized*: the names below the root, in order. The
type carries what normalization establishes – no name is empty, none is `.` or `..`,
none has a slash – so that two paths are equal exactly when they are the same
place in the tree, and `starts_with` is the order of prefixes on lists of names.

A text becomes such a path in three steps (`Rivloom.AbsolutePathBuf.resolvePathAgainstBase`):
a leading `~` is replaced by the home directory, a relative text is put behind a
base, and the components are folded from left to right, `..` taking back the last
name and stopping at the root.
-/

namespace Rivloom

/-! ### Components -/

/-- What one name of a path can be. -/
def IsSegment (s : String) : Prop := s ≠ "" ∧ s ≠ "." ∧ s ≠ ".." ∧ '/' ∉ s.toList

instance : DecidablePred IsSegment := fun _ => inferInstanceAs (Decidable (_ ∧ _ ∧ _ ∧ _))

/-- One name of a path. -/
abbrev Segment : Type := { s : String // IsSegment s }

/-- A component of a path below its root: a name, or the way back up. -/
inductive Component where
  | parentDir
  | normal (name : Segment)
  deriving DecidableEq

/-- `component.as_os_str()`. -/
def Component.asOsStr : Component → String
  | .parentDir => ".."
  | .normal name => name.val

/-- The component that stands between two slashes; empty pieces and `.` are none. -/
def component? (piece : String) : Option Component :=
  if piece = ".." then some .parentDir
  else if h : IsSegment piece then some (.normal ⟨piece, h⟩) else none

/-- `path.components()`, without the root. -/
def components (path : String) : List Component :=
  (splitChar '/' path.toList).filterMap fun piece => component? (String.ofList piece)

/-- `path.is_absolute()`. -/
def isAbsolute (path : String) : Bool := path.toList.head? == some '/'

/-! ### Absolute paths -/

/-- **An absolute, normalized path.** -/
structure AbsolutePathBuf where
  segments : List Segment
  deriving DecidableEq

/-- What the paths of a process are resolved with: its home directory and the
directory it runs in, which may be gone. -/
structure PathHost where
  home : Option String
  currentDir : Option AbsolutePathBuf

namespace AbsolutePathBuf

variable {path other : AbsolutePathBuf}

/-- The root of the file system. -/
def root : AbsolutePathBuf := ⟨[]⟩

/-- One component more: a name goes below, `..` goes up and stops at the root. -/
def pushComponent (path : AbsolutePathBuf) : Component → AbsolutePathBuf
  | .parentDir => ⟨path.segments.dropLast⟩
  | .normal name => ⟨path.segments ++ [name]⟩

/-- `normalize_path`, of components that stand behind a normalized base. -/
def normalizeFrom (base : AbsolutePathBuf) (path : List Component) : AbsolutePathBuf :=
  path.foldl pushComponent base

/-- `base.join(path)`, of texts, for a path that is not absolute. -/
def joinText (base path : String) : String :=
  if base.toList.getLast?.all (· == '/') then base ++ path else base ++ "/" ++ path

/-- A leading `~`, alone or before a slash, is the home directory. -/
def maybeExpandHomeDirectory (home : Option String) (path : String) : String :=
  match stripLead "~" path, home with
  | some rest, some home =>
    if rest = "" then home
    else
      match stripLead "/" rest with
      | some rest => joinText home (trimStartMatches '/' rest)
      | none => path
  | _, _ => path

/-- **A text as a path**, a relative one below the base. -/
def resolvePathAgainstBase (host : PathHost) (path : String) (base : AbsolutePathBuf) :
    AbsolutePathBuf :=
  let expanded := maybeExpandHomeDirectory host.home path
  normalizeFrom (if isAbsolute expanded then root else base) (components expanded)

/-- A text as a path, a relative one below the directory of the process. -/
def fromAbsolutePath (host : PathHost) (path : String) : Option AbsolutePathBuf :=
  let expanded := maybeExpandHomeDirectory host.home path
  if isAbsolute expanded then some (normalizeFrom root (components expanded))
  else host.currentDir.map fun base => normalizeFrom base (components expanded)

/-- `path.join(name)`. -/
def join (host : PathHost) (path : AbsolutePathBuf) (name : String) : AbsolutePathBuf :=
  resolvePathAgainstBase host name path

/-- `path.parent()`. -/
def parent (path : AbsolutePathBuf) : Option AbsolutePathBuf :=
  if path.segments = [] then none else some ⟨path.segments.dropLast⟩

/-- `path.ancestors()`: the path, its parent, and so on up to the root. -/
def ancestors (path : AbsolutePathBuf) : List AbsolutePathBuf :=
  path.segments.inits.reverse.map AbsolutePathBuf.mk

/-- `path.file_name()`: the last name. -/
def fileName (path : AbsolutePathBuf) : Option String := path.segments.getLast?.map Subtype.val

/-- `path.starts_with(other)`: the path lies at the other one or below it. -/
def startsWith (path other : AbsolutePathBuf) : Bool := other.segments.isPrefixOf path.segments

/-- The components of a normalized path are its names. -/
def toComponents (path : AbsolutePathBuf) : List Component := path.segments.map .normal

/-- `path.starts_with(other)`, of an absolute path that need not be normalized. -/
def rawStartsWith (path : List Component) (other : AbsolutePathBuf) : Bool :=
  other.toComponents.isPrefixOf path

/-- `path.strip_prefix(other)`: the names below the other path. -/
def strip (path other : AbsolutePathBuf) : Option (List Segment) :=
  if path.startsWith other then some (path.segments.drop other.segments.length) else none

/-! ### Prefixes -/

@[simp] theorem startsWith_iff :
    path.startsWith other = true ↔ other.segments <+: path.segments := by
  rw [startsWith, List.isPrefixOf_iff_prefix]

theorem strip_eq_some {rest : List Segment} :
    path.strip other = some rest ↔ path.segments = other.segments ++ rest := by
  rw [strip]
  constructor
  · intro h
    split at h
    · next hstarts =>
      obtain ⟨tail, htail⟩ := startsWith_iff.mp hstarts
      rw [← htail, List.drop_left] at h
      rw [← htail, Option.some.inj h]
    · cases h
  · intro h
    rw [if_pos (startsWith_iff.mpr ⟨rest, h.symm⟩), h, List.drop_left]

theorem rawStartsWith_toComponents (path other : AbsolutePathBuf) :
    rawStartsWith path.toComponents other = path.startsWith other := by
  rw [Bool.eq_iff_iff, rawStartsWith, List.isPrefixOf_iff_prefix, startsWith_iff]
  constructor
  · rintro ⟨tail, htail⟩
    obtain ⟨front, rest, hpath, hfront, -⟩ := List.map_eq_append_iff.mp htail.symm
    have hinj : Function.Injective Component.normal := fun _ _ h => Component.normal.inj h
    exact ⟨rest, by rw [hpath, List.map_injective_iff.mpr hinj hfront]⟩
  · exact fun h => h.map _

/-! ### Paths without `..` -/

theorem normalizeFrom_toComponents (path : AbsolutePathBuf) :
    normalizeFrom root path.toComponents = path := by
  -- the names that are pushed go to the end
  have hpush : ∀ (segments : List Segment) (base : AbsolutePathBuf),
      normalizeFrom base (segments.map .normal) = ⟨base.segments ++ segments⟩ := by
    intro segments
    induction segments with
    | nil => simp [normalizeFrom]
    | cons name segments ih =>
      intro base
      have := ih (base.pushComponent (.normal name))
      simpa [normalizeFrom, pushComponent] using this
  exact hpush path.segments root

/-- **A path without `..` is normalized as it stands.** -/
theorem exists_toComponents {path : List Component} (h : .parentDir ∉ path) :
    ∃ normalized : AbsolutePathBuf, path = normalized.toComponents := by
  induction path with
  | nil => exact ⟨root, rfl⟩
  | cons component path ih =>
    rw [List.mem_cons, not_or] at h
    obtain ⟨⟨segments⟩, rfl⟩ := ih h.2
    cases component with
    | parentDir => exact absurd rfl h.1
    | normal name => exact ⟨⟨name :: segments⟩, rfl⟩

/-! ### Texts -/

theorem fromAbsolutePath_of_isAbsolute (host : PathHost) {path : String}
    (h : isAbsolute path = true) :
    fromAbsolutePath host path = some (normalizeFrom root (components path)) := by
  have hhome : stripLead "~" path = none := by
    refine if_neg ?_
    rintro ⟨tail, htail⟩
    rw [isAbsolute, ← htail] at h
    exact absurd h (by simp)
  have hexpand : maybeExpandHomeDirectory host.home path = path := by
    simp only [maybeExpandHomeDirectory, hhome]
  unfold fromAbsolutePath
  rw [hexpand]
  exact if_pos h

theorem join_eq {host : PathHost} {name : String} {segment : Segment}
    (hhome : stripLead "~" name = none) (habsolute : isAbsolute name = false)
    (hname : components name = [.normal segment]) (path : AbsolutePathBuf) :
    path.join host name = ⟨path.segments ++ [segment]⟩ := by
  have hexpand : maybeExpandHomeDirectory host.home name = name := by
    simp only [maybeExpandHomeDirectory, hhome]
  rw [join, resolvePathAgainstBase, hexpand]
  simp only [habsolute, hname]
  rfl

end AbsolutePathBuf

end Rivloom
