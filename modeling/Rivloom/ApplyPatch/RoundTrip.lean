import Rivloom.ApplyPatch.Parser

/-!
# Printed patches are read back

This file prints hunks in the grammar of patches
(`Rivloom.ApplyPatch.printPatch`) and proves that what is printed is read as what
it was printed from (`Rivloom.ApplyPatch.parsePatch_printPatch`).

The proof follows the machine. Between hunks it is
`Rivloom.ApplyPatch.StreamingPatchParser.Ready`: it takes the next header, whatever
mode the last hunk has left it in. A header begins a hunk, and from there each line
is known by its first character, because no trimming takes a `+` or a `-` away, and
a space that is trimmed away leaves nothing (`Rivloom.ApplyPatch.Content.trimEnd`):
no line of a file is taken for a header. The lines of a chunk are printed from the
places of its context lines, and the invariant of the induction on these places is
that the chunk that is being read is the part of the printed one up to the place.
-/

namespace Rivloom.ApplyPatch

variable {p : StreamingPatchParser} {hunks : List Hunk} {chunk : UpdateFileChunk} {s : Text}
  {c : Char} {places : List (ℕ × ℕ)} {o n : ℕ} {last : Text}

/-! ### Printing -/

namespace UpdateFileChunk

/-- The lines of a chunk behind a place in its old and its new lines: up to the next
context line the removed ones and then the added ones. -/
def bodyFrom (chunk : UpdateFileChunk) (oldStart newStart : ℕ) : List (ℕ × ℕ) → List Text
  | [] =>
    (chunk.oldLines.drop oldStart).map ('-' :: ·) ++ (chunk.newLines.drop newStart).map ('+' :: ·)
  | (o, n) :: rest =>
    ((chunk.oldLines.take o).drop oldStart).map ('-' :: ·) ++
      ((chunk.newLines.take n).drop newStart).map ('+' :: ·) ++
      [' ' :: chunk.oldLines.getD o []] ++ chunk.bodyFrom (o + 1) (n + 1) rest

/-- The line that introduces a chunk. -/
def heading (chunk : UpdateFileChunk) : Text :=
  match chunk.changeContext with
  | none => emptyChangeContextMarker
  | some context => changeContextMarker ++ context

/-- The lines of a chunk. -/
def print (chunk : UpdateFileChunk) : List Text :=
  chunk.heading :: chunk.bodyFrom 0 0 chunk.contextLineIndices ++
    (if chunk.isEndOfFile then [eofMarker] else [])

end UpdateFileChunk

/-- The lines of a text that is made of whole lines. -/
def wholeLines (contents : Text) : List Text := (splitChar '\n' contents).dropLast

/-- The lines of a hunk. -/
def Hunk.print : Hunk → List Text
  | .addFile path contents => (addFileMarker ++ path) :: (wholeLines contents).map ('+' :: ·)
  | .deleteFile path => [deleteFileMarker ++ path]
  | .updateFile path movePath chunks =>
    (updateFileMarker ++ path) :: (movePath.toList.map (moveToMarker ++ ·) ++
      chunks.flatMap (·.print))

/-- The lines of a patch. -/
def patchLines (hunks : List Hunk) : List Text :=
  beginPatchMarker :: hunks.flatMap (·.print) ++ [endPatchMarker]

/-- A patch as a text. -/
def printPatch (hunks : List Hunk) : Text := joinLines (patchLines hunks)

/-! ### What can be printed -/

/-- A path or a line of context, as it may stand behind a marker. -/
structure Nameable (name : Text) : Prop where
  nonempty : name ≠ []
  oneLine : '\n' ∉ name
  trimmed : ∀ c, name.getLast? = some c → isWhitespace c = false

/-- The text of a line of a file. -/
structure LineText (line : Text) : Prop where
  oneLine : '\n' ∉ line
  noReturn : line.getLast? ≠ some '\r'

/-- A chunk that can be printed. -/
structure UpdateFileChunk.Printable (chunk : UpdateFileChunk) : Prop where
  context : ∀ context ∈ chunk.changeContext, Nameable context
  old : ∀ line ∈ chunk.oldLines, LineText line
  new : ∀ line ∈ chunk.newLines, LineText line
  nonempty : chunk.oldLines ≠ [] ∨ chunk.newLines ≠ []
  increasing : chunk.contextLineIndices.Pairwise fun a b => a.1 < b.1 ∧ a.2 < b.2
  equal : ∀ place ∈ chunk.contextLineIndices,
    ∃ line, chunk.oldLines[place.1]? = some line ∧ chunk.newLines[place.2]? = some line

/-- A hunk that can be printed. -/
def Hunk.Printable : Hunk → Prop
  | .addFile path contents =>
    Nameable path ∧ ∃ lines : List Text, contents = lines.flatMap (· ++ ['\n']) ∧
      ∀ line ∈ lines, LineText line
  | .deleteFile path => Nameable path
  | .updateFile path movePath chunks =>
    Nameable path ∧ (∀ dest ∈ movePath, Nameable dest) ∧ chunks ≠ [] ∧
      ∀ chunk ∈ chunks, chunk.Printable

/-! ### Trimming -/

theorem trimEndChars_of_last (h : ∀ c, s.getLast? = some c → isWhitespace c = false) :
    trimEndChars s = s := by
  rw [trimEndChars, List.rdropWhile_eq_self_iff]
  intro hne
  rw [h _ (List.getLast?_eq_some_getLast hne)]
  exact Bool.false_ne_true

theorem trimChars_of_ends (hc : isWhitespace c = false)
    (h : ∀ x, (c :: s).getLast? = some x → isWhitespace x = false) :
    trimChars (c :: s) = c :: s := by
  rw [trimChars, List.dropWhile_cons_of_neg (by simp [hc])]
  exact trimEndChars_of_last h

/-- A text that begins and ends with black characters. -/
structure Trimmed (s : Text) : Prop where
  nonempty : s ≠ []
  head : ∀ c, s.head? = some c → isWhitespace c = false
  last : ∀ c, s.getLast? = some c → isWhitespace c = false

theorem Trimmed.trimEnd (h : Trimmed s) : trimEndChars s = s :=
  trimEndChars_of_last h.last

theorem Trimmed.trim (h : Trimmed s) : trimChars s = s := by
  match s, h with
  | c :: s, h => exact trimChars_of_ends (h.head c rfl) h.last

theorem Nameable.trimmed_marker {name : Text} (h : Nameable name) {marker : Text}
    (hhead : ∀ c, (marker ++ name).head? = some c → isWhitespace c = false) :
    Trimmed (marker ++ name) := by
  refine ⟨?_, hhead, ?_⟩
  · intro hnil
    exact h.nonempty (List.append_eq_nil_iff.mp hnil).2
  · intro c hc
    rw [List.getLast?_append_of_ne_nil _ h.nonempty] at hc
    exact h.trimmed c hc

/-- A line of a file, with the character that says what it is. -/
structure Content (line : Text) : Prop where
  kind : line.head? = some ' ' ∨ line.head? = some '+' ∨ line.head? = some '-'

/-- What trimming leaves of a line of a file is nothing, or begins as the line
does. -/
theorem Content.trimEnd {line : Text} (h : Content line) :
    trimEndChars line = [] ∨ Content (trimEndChars line) := by
  obtain ⟨tail, htail⟩ := List.rdropWhile_prefix (p := isWhitespace) (l := line)
  match hs : trimEndChars line with
  | [] => exact .inl rfl
  | c :: rest =>
    rw [trimEndChars] at hs
    rw [hs] at htail
    refine .inr ⟨?_⟩
    have hkind := h.kind
    rw [← htail] at hkind
    exact hkind

/-! ### Lines that are no headers -/

theorem ne_of_isPrefixOf {marker line : Text} (h : marker.isPrefixOf line = false) :
    line ≠ marker := by
  rintro rfl
  exact Bool.false_ne_true (h.symm.trans (List.isPrefixOf_iff_prefix.mpr (List.prefix_refl line)))

theorem isPrefixOf_of_head {marker line : Text} (hmarker : marker.head? = some c)
    (hline : line.head? ≠ some c) : marker.isPrefixOf line = false := by
  match marker, line with
  | m :: marker, [] => rfl
  | m :: marker, l :: line =>
    have hne : (m == l) = false := by
      rw [beq_eq_false_iff_ne]
      rintro rfl
      exact hline hmarker
    simp [List.isPrefixOf, hne]

theorem Content.head_ne {line : Text} (h : Content line) (hc : c ≠ ' ' ∧ c ≠ '+' ∧ c ≠ '-') :
    line.head? ≠ some c := by
  intro hhead
  rcases h.kind with hkind | hkind | hkind
  · exact hc.1 (Option.some.inj (hhead.symm.trans hkind))
  · exact hc.2.1 (Option.some.inj (hhead.symm.trans hkind))
  · exact hc.2.2 (Option.some.inj (hhead.symm.trans hkind))

theorem Content.not_marker {line : Text} (h : Content line) (marker : Text)
    (hmarker : marker.head? = some '*' ∨ marker.head? = some '@') :
    marker.isPrefixOf (trimEndChars line) = false := by
  rcases h.trimEnd with hnil | hcontent
  · rw [hnil]
    rcases hmarker with hmarker | hmarker
    · exact isPrefixOf_of_head hmarker (by simp)
    · exact isPrefixOf_of_head hmarker (by simp)
  · rcases hmarker with hmarker | hmarker
    · exact isPrefixOf_of_head hmarker (hcontent.head_ne (by decide))
    · exact isPrefixOf_of_head hmarker (hcontent.head_ne (by decide))

namespace StreamingPatchParser

variable {done : List Hunk} {path contents : Text}

theorem handle_of_not_marker (p : StreamingPatchParser) {line : Text}
    (h : ∀ marker ∈ [environmentIdMarker, endPatchMarker, addFileMarker, deleteFileMarker,
      updateFileMarker], marker.isPrefixOf line = false) :
    p.handleHunkHeadersAndEndPatch line = .ok none := by
  simp only [List.forall_mem_cons] at h
  obtain ⟨henv, hend, hadd, hdelete, hupdate, -⟩ := h
  simp [handleHunkHeadersAndEndPatch, henv, ne_of_isPrefixOf hend, hadd, hdelete, hupdate]

theorem handle_of_head (p : StreamingPatchParser) {line : Text} (h : line.head? ≠ some '*') :
    p.handleHunkHeadersAndEndPatch line = .ok none := by
  refine p.handle_of_not_marker ?_
  simp only [List.forall_mem_cons]
  exact ⟨isPrefixOf_of_head rfl h, isPrefixOf_of_head rfl h, isPrefixOf_of_head rfl h,
    isPrefixOf_of_head rfl h, isPrefixOf_of_head rfl h, List.forall_mem_nil _⟩

theorem handle_content (p : StreamingPatchParser) {line : Text} (h : Content line) :
    p.handleHunkHeadersAndEndPatch (trimEndChars line) = .ok none := by
  refine p.handle_of_head ?_
  rcases h.trimEnd with hnil | hcontent
  · rw [hnil]
    exact nofun
  · exact hcontent.head_ne (by decide)

/-! ### Headers -/

/-- **Between hunks**: the machine has read these hunks, and takes the next header. -/
structure Ready (p : StreamingPatchParser) (hunks : List Hunk) : Prop where
  read : p.hunks = hunks
  environment : p.environmentId = none
  started : p.mode ≠ .notStarted
  notEnded : p.mode ≠ .endedPatch
  full : ∀ path movePath chunks, hunks.getLast? = some (.updateFile path movePath chunks) →
    ∃ chunk, chunks.getLast? = some chunk ∧ chunk.isBlank = false

/-- The machine about to process the next line. -/
def counted (p : StreamingPatchParser) : StreamingPatchParser :=
  { p with lineBuffer := [], lineNumber := p.lineNumber + 1 }

theorem Ready.counted (h : p.Ready hunks) : p.counted.Ready hunks :=
  ⟨h.read, h.environment, h.started, h.notEnded, h.full⟩

theorem Ready.ensure (h : p.Ready hunks) (line : Text) :
    p.ensureUpdateHunkIsNotEmpty line = .ok () := by
  unfold ensureUpdateHunkIsNotEmpty
  rw [h.read]
  split
  · rename_i path movePath _ hlast _
    obtain ⟨chunk, hchunk, -⟩ := h.full path movePath [] hlast
    exact absurd hchunk (by simp)
  · rename_i path movePath chunks hlast _
    obtain ⟨chunk, hchunk, hblank⟩ := h.full path movePath chunks hlast
    simp [hchunk, hblank]
  · rfl

theorem Ready.processLine {p next : StreamingPatchParser} {line : Text} (h : p.Ready hunks)
    (htrimmed : Trimmed line) (hhandled : p.handleHunkHeadersAndEndPatch line = .ok (some next)) :
    p.processLine line = .ok next := by
  have hstarted := h.started
  have hended := h.notEnded
  simp only [StreamingPatchParser.processLine, htrimmed.trim, htrimmed.trimEnd, hhandled]
  split
  · rename_i hmode
    exact absurd hmode hstarted
  · rfl
  · rfl
  · rfl
  · rfl
  · rename_i hmode
    exact absurd hmode hended

theorem Ready.handle_addFile (h : p.Ready hunks) (path : Text) :
    p.handleHunkHeadersAndEndPatch (addFileMarker ++ path) =
      .ok (some (p.beginHunk (.addFile path []) .addFile)) := by
  have henv : environmentIdMarker.isPrefixOf (addFileMarker ++ path) = false := rfl
  have hend : endPatchMarker.isPrefixOf (addFileMarker ++ path) = false := rfl
  unfold handleHunkHeadersAndEndPatch
  rw [if_neg (by simp [henv]), if_neg (ne_of_isPrefixOf hend), if_pos (by simp), h.ensure,
    List.drop_left]
  rfl

theorem Ready.handle_deleteFile (h : p.Ready hunks) (path : Text) :
    p.handleHunkHeadersAndEndPatch (deleteFileMarker ++ path) =
      .ok (some (p.beginHunk (.deleteFile path) .deleteFile)) := by
  have henv : environmentIdMarker.isPrefixOf (deleteFileMarker ++ path) = false := rfl
  have hend : endPatchMarker.isPrefixOf (deleteFileMarker ++ path) = false := rfl
  have hadd : addFileMarker.isPrefixOf (deleteFileMarker ++ path) = false := rfl
  unfold handleHunkHeadersAndEndPatch
  rw [if_neg (by simp [henv]), if_neg (ne_of_isPrefixOf hend), if_neg (by simp [hadd]),
    if_pos (by simp), h.ensure, List.drop_left]
  rfl

theorem Ready.handle_updateFile (h : p.Ready hunks) (path : Text) :
    p.handleHunkHeadersAndEndPatch (updateFileMarker ++ path) =
      .ok (some (p.beginHunk (.updateFile path none []) (.updateFile p.lineNumber))) := by
  have henv : environmentIdMarker.isPrefixOf (updateFileMarker ++ path) = false := rfl
  have hend : endPatchMarker.isPrefixOf (updateFileMarker ++ path) = false := rfl
  have hadd : addFileMarker.isPrefixOf (updateFileMarker ++ path) = false := rfl
  have hdelete : deleteFileMarker.isPrefixOf (updateFileMarker ++ path) = false := rfl
  unfold handleHunkHeadersAndEndPatch
  rw [if_neg (by simp [henv]), if_neg (ne_of_isPrefixOf hend), if_neg (by simp [hadd]),
    if_neg (by simp [hdelete]), if_pos (by simp), h.ensure, List.drop_left]
  rfl

/-! ### The lines of an update -/

/-- The machine reads these lines one after the other. -/
def Reads (p : StreamingPatchParser) (lines : List Text) (next : StreamingPatchParser) : Prop :=
  lines.foldlM nextLine p = .ok next

theorem Reads.nil (p : StreamingPatchParser) : p.Reads [] p := rfl

theorem Reads.cons {p q r : StreamingPatchParser} {line : Text} {lines : List Text}
    (hline : p.nextLine line = .ok q) (hlines : q.Reads lines r) : p.Reads (line :: lines) r := by
  rw [Reads, List.foldlM_cons, hline]
  exact hlines

theorem Reads.append {p q r : StreamingPatchParser} {first second : List Text}
    (hfirst : p.Reads first q) (hsecond : q.Reads second r) : p.Reads (first ++ second) r := by
  rw [Reads, List.foldlM_append, hfirst]
  exact hsecond

/-- **In an update**: behind some hunks the machine is in the update of a file, of
which it has read these chunks. -/
structure Updating (p : StreamingPatchParser) (done : List Hunk) (path : Text)
    (movePath : Option Text) (chunks : List UpdateFileChunk) : Prop where
  read : p.hunks = done ++ [.updateFile path movePath chunks]
  environment : p.environmentId = none
  mode : ∃ n, p.mode = .updateFile n

section Update

variable {p : StreamingPatchParser} {done : List Hunk} {path : Text} {movePath : Option Text}
  {chunks : List UpdateFileChunk} {a b : ℕ}

theorem Updating.nextLine (h : p.Updating done path movePath chunks) {line : Text}
    (hheader : ∀ q : StreamingPatchParser,
      q.handleHunkHeadersAndEndPatch (trimEndChars line) = .ok none)
    {movePath' : Option Text} {chunks' : List UpdateFileChunk}
    (hstep : ∀ n, updateStep n line movePath chunks = .ok (movePath', chunks')) :
    ∃ q, p.nextLine line = .ok q ∧ q.Updating done path movePath' chunks' := by
  obtain ⟨n, hmode⟩ := h.mode
  refine ⟨{ p.counted with hunks := done ++ [.updateFile path movePath' chunks'] }, ?_,
    rfl, h.environment, n, hmode⟩
  have hlast : p.hunks.getLast? = some (.updateFile path movePath chunks) := by
    rw [h.read, List.getLast?_concat]
  have hinit : p.hunks.dropLast = done := by rw [h.read, List.dropLast_concat]
  simp only [StreamingPatchParser.nextLine, StreamingPatchParser.processLine, hmode, hheader]
  simp only [bind, Except.bind, processUpdateLine, hlast, hstep, Except.map, hinit, counted, hmode]

theorem Updating.move (h : p.Updating done path none []) {dest : Text} (hdest : Nameable dest) :
    ∃ q, p.nextLine (moveToMarker ++ dest) = .ok q ∧ q.Updating done path (some dest) [] := by
  have htrim : trimEndChars (moveToMarker ++ dest) = moveToMarker ++ dest :=
    (hdest.trimmed_marker (fun c hc => by cases hc; rfl)).trimEnd
  refine h.nextLine (fun q => ?_) (fun n => ?_)
  · rw [htrim]
    refine q.handle_of_not_marker ?_
    simp only [List.forall_mem_cons]
    exact ⟨rfl, rfl, rfl, rfl, rfl, List.forall_mem_nil _⟩
  · simp [updateStep, htrim]

theorem Updating.destination (h : p.Updating done path none [])
    (hmove : ∀ dest ∈ movePath, Nameable dest) :
    ∃ q, p.Reads (movePath.toList.map (moveToMarker ++ ·)) q ∧
      q.Updating done path movePath [] := by
  match movePath, hmove with
  | none, _ => exact ⟨p, .nil p, h⟩
  | some dest, hmove =>
    obtain ⟨q, hq, hmoved⟩ := h.move (hmove dest rfl)
    exact ⟨q, .cons hq (.nil q), hmoved⟩

/-- The last of the chunks, if there is one, has a line. -/
def LastFull (chunks : List UpdateFileChunk) : Prop :=
  chunks.getLast?.any (·.isBlank) = false

theorem Updating.heading (h : p.Updating done path movePath chunks) (hfull : LastFull chunks)
    (hcontext : ∀ context ∈ chunk.changeContext, Nameable context) :
    ∃ q, p.nextLine chunk.heading = .ok q ∧
      q.Updating done path movePath (chunks ++ [.empty chunk.changeContext]) := by
  unfold LastFull at hfull
  match hc : chunk.changeContext with
  | none =>
    have hheading : chunk.heading = emptyChangeContextMarker := by
      rw [UpdateFileChunk.heading, hc]
    have htrim : trimEndChars emptyChangeContextMarker = emptyChangeContextMarker := by decide
    rw [hheading]
    refine h.nextLine (fun q => ?_) (fun n => ?_)
    · rw [htrim]
      exact q.handle_of_head (by decide)
    · have hmove : moveToMarker.isPrefixOf emptyChangeContextMarker = false := rfl
      have hne : emptyChangeContextMarker ≠ [] := by decide
      simp [updateStep, htrim, hfull, hmove, hne]
  | some context =>
    have hheading : chunk.heading = changeContextMarker ++ context := by
      rw [UpdateFileChunk.heading, hc]
    have hname : Nameable context := hcontext context (by rw [hc]; rfl)
    have htrim : trimEndChars (changeContextMarker ++ context) = changeContextMarker ++ context :=
      (hname.trimmed_marker (fun c hc => by cases hc; rfl)).trimEnd
    rw [hheading]
    refine h.nextLine (fun q => ?_) (fun n => ?_)
    · rw [htrim]
      exact q.handle_of_head (fun hstar => by cases hstar)
    · have hmove : moveToMarker.isPrefixOf (changeContextMarker ++ context) = false := rfl
      have hne : changeContextMarker ++ context ≠ emptyChangeContextMarker := by
        intro heq
        have hlength := congrArg List.length heq
        rw [List.length_append] at hlength
        exact absurd hlength (by simp [changeContextMarker, emptyChangeContextMarker]; omega)
      have hnil : changeContextMarker ++ context ≠ [] :=
        fun heq => hname.nonempty (List.append_eq_nil_iff.mp heq).2
      simp [updateStep, htrim, hfull, hmove, hne, hnil]

theorem onLastChunk_concat (change : UpdateFileChunk → UpdateFileChunk)
    (chunks : List UpdateFileChunk) (chunk : UpdateFileChunk) :
    onLastChunk change (chunks ++ [chunk]) = chunks ++ [change chunk] := by
  rw [onLastChunk, List.getLast?_concat]
  simp only [List.dropLast_concat]

theorem updateStep_content (n : ℕ) {line : Text} (hline : Content line)
    (heof : chunk.isEndOfFile = false) :
    updateStep n line movePath (chunks ++ [chunk]) =
      contentStep n line movePath (chunks ++ [chunk]) := by
  have hempty := hline.not_marker emptyChangeContextMarker (.inr rfl)
  have hcontext := hline.not_marker changeContextMarker (.inr rfl)
  have heofMarker := hline.not_marker eofMarker (.inl rfl)
  simp [updateStep, heof, hcontext, ne_of_isPrefixOf hempty, ne_of_isPrefixOf heofMarker]

variable {chunk : UpdateFileChunk}

theorem Updating.context (h : p.Updating done path movePath (chunks ++ [chunk]))
    (heof : chunk.isEndOfFile = false) (text : Text) :
    ∃ q, p.nextLine (' ' :: text) = .ok q ∧
      q.Updating done path movePath (chunks ++ [chunk.pushContextLine text]) :=
  have hline : Content (' ' :: text) := ⟨.inl rfl⟩
  h.nextLine (fun q => q.handle_content hline) fun n => by
    rw [updateStep_content n hline heof, contentStep, onLastChunk_concat]

theorem Updating.removed (h : p.Updating done path movePath (chunks ++ [chunk]))
    (heof : chunk.isEndOfFile = false) (text : Text) :
    ∃ q, p.nextLine ('-' :: text) = .ok q ∧
      q.Updating done path movePath (chunks ++ [chunk.pushOldLine text]) :=
  have hline : Content ('-' :: text) := ⟨.inr (.inr rfl)⟩
  h.nextLine (fun q => q.handle_content hline) fun n => by
    rw [updateStep_content n hline heof, contentStep, onLastChunk_concat]

theorem Updating.added (h : p.Updating done path movePath (chunks ++ [chunk]))
    (heof : chunk.isEndOfFile = false) (text : Text) :
    ∃ q, p.nextLine ('+' :: text) = .ok q ∧
      q.Updating done path movePath (chunks ++ [chunk.pushNewLine text]) :=
  have hline : Content ('+' :: text) := ⟨.inr (.inl rfl)⟩
  h.nextLine (fun q => q.handle_content hline) fun n => by
    rw [updateStep_content n hline heof, contentStep, onLastChunk_concat]

theorem Updating.endOfFile (h : p.Updating done path movePath (chunks ++ [chunk]))
    (heof : chunk.isEndOfFile = false) (hblank : chunk.isBlank = false) :
    ∃ q, p.nextLine eofMarker = .ok q ∧
      q.Updating done path movePath (chunks ++ [{ chunk with isEndOfFile := true }]) := by
  have htrim : trimEndChars eofMarker = eofMarker := by decide
  refine h.nextLine (fun q => ?_) (fun n => ?_)
  · rw [htrim]
    refine q.handle_of_not_marker ?_
    simp only [List.forall_mem_cons]
    exact ⟨rfl, rfl, rfl, rfl, rfl, List.forall_mem_nil _⟩
  · have hempty : eofMarker ≠ emptyChangeContextMarker := by decide
    have hcontext : changeContextMarker.isPrefixOf eofMarker = false := rfl
    simp [updateStep, htrim, heof, hblank, hempty, hcontext, onLastChunk_concat]

theorem Updating.removedLines (h : p.Updating done path movePath (chunks ++ [chunk]))
    (heof : chunk.isEndOfFile = false) (lines : List Text) :
    ∃ q, p.Reads (lines.map ('-' :: ·)) q ∧ q.Updating done path movePath
      (chunks ++ [{ chunk with oldLines := chunk.oldLines ++ lines }]) := by
  induction lines generalizing p chunk with
  | nil => exact ⟨p, .nil p, by simpa using h⟩
  | cons line lines ih =>
    obtain ⟨q, hq, hupdating⟩ := h.removed heof line
    obtain ⟨r, hr, hdone⟩ := ih hupdating heof
    refine ⟨r, .cons hq hr, ?_⟩
    simpa [UpdateFileChunk.pushOldLine] using hdone

theorem Updating.addedLines (h : p.Updating done path movePath (chunks ++ [chunk]))
    (heof : chunk.isEndOfFile = false) (lines : List Text) :
    ∃ q, p.Reads (lines.map ('+' :: ·)) q ∧ q.Updating done path movePath
      (chunks ++ [{ chunk with newLines := chunk.newLines ++ lines }]) := by
  induction lines generalizing p chunk with
  | nil => exact ⟨p, .nil p, by simpa using h⟩
  | cons line lines ih =>
    obtain ⟨q, hq, hupdating⟩ := h.added heof line
    obtain ⟨r, hr, hdone⟩ := ih hupdating heof
    refine ⟨r, .cons hq hr, ?_⟩
    simpa [UpdateFileChunk.pushNewLine] using hdone

/-! ### The lines of a chunk -/

/-- A chunk up to a place in its old and its new lines, with the context lines in front
of the place. -/
def upTo (chunk : UpdateFileChunk) (o n : ℕ) (places : List (ℕ × ℕ)) : UpdateFileChunk :=
  ⟨chunk.changeContext, chunk.oldLines.take o, chunk.newLines.take n, places, false⟩

theorem take_append_drop_take {α : Type} (l : List α) (h : a ≤ b) :
    l.take a ++ (l.take b).drop a = l.take b := by
  rw [← Nat.min_eq_left h, ← List.take_take, Nat.min_eq_left h, List.take_append_drop]

theorem Updating.upToContext {line : Text}
    (h : p.Updating done path movePath (chunks ++ [upTo chunk o n places])) (ha : o ≤ a)
    (hb : n ≤ b) (hold : chunk.oldLines[a]? = some line) (hnew : chunk.newLines[b]? = some line) :
    ∃ q, p.Reads (((chunk.oldLines.take a).drop o).map ('-' :: ·) ++
        ((chunk.newLines.take b).drop n).map ('+' :: ·) ++ [' ' :: chunk.oldLines.getD a []]) q ∧
      q.Updating done path movePath
          (chunks ++ [upTo chunk (a + 1) (b + 1) (places ++ [(a, b)])]) := by
  obtain ⟨q, hq, hremoved⟩ := h.removedLines rfl ((chunk.oldLines.take a).drop o)
  obtain ⟨r, hr, hadded⟩ := hremoved.addedLines rfl ((chunk.newLines.take b).drop n)
  obtain ⟨s, hs, hcontext⟩ := hadded.context rfl (chunk.oldLines.getD a [])
  refine ⟨s, (hq.append hr).append (.cons hs (.nil s)), ?_⟩
  have halen : a < chunk.oldLines.length := (List.getElem?_eq_some_iff.mp hold).1
  have hblen : b < chunk.newLines.length := (List.getElem?_eq_some_iff.mp hnew).1
  have hline : chunk.oldLines.getD a [] = line := by rw [List.getD_eq_getElem?_getD, hold]; rfl
  have hchunk : upTo chunk (a + 1) (b + 1) (places ++ [(a, b)]) =
      UpdateFileChunk.pushContextLine ⟨chunk.changeContext, chunk.oldLines.take a,
        chunk.newLines.take b, places, false⟩ line := by
    simp only [upTo, UpdateFileChunk.pushContextLine, List.take_add_one, hold, hnew,
      Option.toList_some, List.length_take, Nat.min_eq_left halen.le, Nat.min_eq_left hblen.le]
  rw [hchunk]
  simpa only [upTo, take_append_drop_take _ ha, take_append_drop_take _ hb, hline] using hcontext

/-- **The lines of a chunk behind a place make up the rest of the chunk.** The
induction is on the context lines behind the place; up to the place the chunk has been
read. -/
theorem Updating.body {places rest : List (ℕ × ℕ)}
    (h : p.Updating done path movePath (chunks ++ [upTo chunk o n places]))
    (hplaces : chunk.contextLineIndices = places ++ rest)
    (hincreasing : rest.Pairwise fun a b => a.1 < b.1 ∧ a.2 < b.2)
    (hbehind : ∀ place ∈ rest, o ≤ place.1 ∧ n ≤ place.2)
    (hequal : ∀ place ∈ rest,
      ∃ line, chunk.oldLines[place.1]? = some line ∧ chunk.newLines[place.2]? = some line) :
    ∃ q, p.Reads (chunk.bodyFrom o n rest) q ∧
      q.Updating done path movePath (chunks ++ [{ chunk with isEndOfFile := false }]) := by
  induction rest generalizing p o n places with
  | nil =>
    obtain ⟨q, hq, hremoved⟩ := h.removedLines rfl (chunk.oldLines.drop o)
    obtain ⟨r, hr, hadded⟩ := hremoved.addedLines rfl (chunk.newLines.drop n)
    refine ⟨r, hq.append hr, ?_⟩
    rw [List.append_nil] at hplaces
    simpa only [upTo, List.take_append_drop, ← hplaces] using hadded
  | cons place rest ih =>
    obtain ⟨a, b⟩ := place
    obtain ⟨line, hold, hnew⟩ := hequal (a, b) List.mem_cons_self
    obtain ⟨ha, hb⟩ := hbehind (a, b) List.mem_cons_self
    obtain ⟨hfirst, hrest⟩ := List.pairwise_cons.mp hincreasing
    obtain ⟨q, hq, hcontext⟩ := h.upToContext ha hb hold hnew
    obtain ⟨r, hr, hdone⟩ := ih hcontext (by rw [hplaces, List.append_assoc]; rfl) hrest hfirst
      (fun place hplace => hequal place (List.mem_cons_of_mem _ hplace))
    exact ⟨r, hq.append hr, hdone⟩

theorem isBlank_of_printable (h : chunk.Printable) : chunk.isBlank = false := by
  rw [UpdateFileChunk.isBlank, Bool.and_eq_false_iff, List.isEmpty_eq_false_iff,
    List.isEmpty_eq_false_iff]
  exact h.nonempty

theorem Updating.printedChunk (h : p.Updating done path movePath chunks) (hfull : LastFull chunks)
    (hprintable : chunk.Printable) :
    ∃ q, p.Reads chunk.print q ∧ q.Updating done path movePath (chunks ++ [chunk]) := by
  obtain ⟨q, hq, hheading⟩ := h.heading hfull hprintable.context
  have hstart : UpdateFileChunk.empty chunk.changeContext = upTo chunk 0 0 [] := rfl
  rw [hstart] at hheading
  obtain ⟨r, hr, hbody⟩ := hheading.body rfl hprintable.increasing
    (fun _ _ => ⟨Nat.zero_le _, Nat.zero_le _⟩) hprintable.equal
  cases heof : chunk.isEndOfFile with
  | false =>
    refine ⟨r, ?_, ?_⟩
    · simpa [UpdateFileChunk.print, heof] using Reads.cons hq hr
    · simpa only [← heof] using hbody
  | true =>
    have hblank : chunk.isBlank = false := isBlank_of_printable hprintable
    obtain ⟨t, ht, hend⟩ := hbody.endOfFile rfl hblank
    refine ⟨t, ?_, ?_⟩
    · simpa [UpdateFileChunk.print, heof] using Reads.cons hq (hr.append (.cons ht (.nil t)))
    · simpa only [← heof] using hend

theorem lastFull_concat (h : chunk.isBlank = false) : LastFull (chunks ++ [chunk]) := by
  simp [LastFull, h]

theorem Updating.printedChunks {more : List UpdateFileChunk}
    (h : p.Updating done path movePath chunks) (hfull : LastFull chunks)
    (hprintable : ∀ chunk ∈ more, chunk.Printable) :
    ∃ q, p.Reads (more.flatMap (·.print)) q ∧ q.Updating done path movePath (chunks ++ more) := by
  induction more generalizing p chunks with
  | nil => exact ⟨p, .nil p, by simpa using h⟩
  | cons chunk more ih =>
    have hchunk := hprintable chunk List.mem_cons_self
    obtain ⟨q, hq, hread⟩ := h.printedChunk hfull hchunk
    obtain ⟨r, hr, hdone⟩ := ih hread (lastFull_concat (isBlank_of_printable hchunk))
      (fun c hc => hprintable c (List.mem_cons_of_mem _ hc))
    exact ⟨r, hq.append hr, by simpa using hdone⟩

end Update

/-! ### The lines of an added file -/

/-- The machine is in an added file, of which it has read these contents. -/
structure Adding (p : StreamingPatchParser) (done : List Hunk) (path contents : Text) : Prop where
  read : p.hunks = done ++ [.addFile path contents]
  environment : p.environmentId = none
  mode : p.mode = .addFile

theorem Adding.line (h : p.Adding done path contents) (text : Text) :
    ∃ q, p.nextLine ('+' :: text) = .ok q ∧ q.Adding done path (contents ++ text ++ ['\n']) := by
  refine ⟨{ p.counted with hunks := done ++ [.addFile path (contents ++ text ++ ['\n'])] }, ?_,
    rfl, h.environment, h.mode⟩
  have hlast : p.hunks.getLast? = some (.addFile path contents) := by
    rw [h.read, List.getLast?_concat]
  have hinit : p.hunks.dropLast = done := by rw [h.read, List.dropLast_concat]
  have htrim : trimChars ('+' :: text) = trimEndChars ('+' :: text) := rfl
  have hline : Content ('+' :: text) := ⟨.inr (.inl rfl)⟩
  simp only [StreamingPatchParser.nextLine, StreamingPatchParser.processLine, h.mode, htrim,
    handle_content _ hline]
  simp only [bind, Except.bind, processAddLine, hlast, hinit, counted, h.mode]

theorem Adding.lines (h : p.Adding done path contents) (lines : List Text) :
    ∃ q, p.Reads (lines.map ('+' :: ·)) q ∧
      q.Adding done path (contents ++ lines.flatMap (· ++ ['\n'])) := by
  induction lines generalizing p contents with
  | nil => exact ⟨p, .nil p, by simpa using h⟩
  | cons line lines ih =>
    obtain ⟨q, hq, hadding⟩ := h.line line
    obtain ⟨r, hr, hdone⟩ := ih hadding
    exact ⟨r, .cons hq hr, by simpa using hdone⟩

/-! ### Whole hunks -/

theorem wholeLines_flatMap {lines : List Text} (h : ∀ line ∈ lines, LineText line) :
    wholeLines (lines.flatMap (· ++ ['\n'])) = lines := by
  induction lines with
  | nil => rfl
  | cons line lines ih =>
    have hline := (h line List.mem_cons_self).oneLine
    have hrest := ih (fun l hl => h l (List.mem_cons_of_mem line hl))
    rw [wholeLines] at hrest ⊢
    rw [List.flatMap_cons, List.append_assoc, List.singleton_append, splitChar_append_cons hline,
      List.dropLast_cons_of_ne_nil (splitChar_ne_nil _ _), hrest]

/-- **A printed hunk is read**, and the machine is ready for the next one. -/
theorem Ready.hunk (h : p.Ready done) {hunk : Hunk} (hprintable : hunk.Printable) :
    ∃ q, p.Reads hunk.print q ∧ q.Ready (done ++ [hunk]) := by
  match hunk, hprintable with
  | .addFile path contents, ⟨hpath, lines, hcontents, hlines⟩ =>
    have hheader := h.counted.processLine (hpath.trimmed_marker (fun c hc => by cases hc; rfl))
      (h.counted.handle_addFile path)
    have hadding : (p.counted.beginHunk (.addFile path []) .addFile).Adding done path [] :=
      ⟨by rw [← h.read]; rfl, h.environment, rfl⟩
    obtain ⟨q, hq, hread⟩ := hadding.lines lines
    refine ⟨q, ?_, ?_⟩
    · rw [Hunk.print, hcontents, wholeLines_flatMap hlines]
      exact .cons hheader hq
    · rw [hcontents]
      exact ⟨hread.read, hread.environment, by rw [hread.mode]; nofun, by rw [hread.mode]; nofun,
        fun _ _ _ hlast => by simp at hlast⟩
  | .deleteFile path, hpath =>
    have hheader := h.counted.processLine
      (Nameable.trimmed_marker hpath (fun c hc => by cases hc; rfl))
      (h.counted.handle_deleteFile path)
    refine ⟨_, .cons hheader (.nil _), ?_⟩
    exact ⟨by rw [← h.read]; rfl, h.environment, nofun, nofun, fun _ _ _ hlast => by simp at hlast⟩
  | .updateFile path movePath chunks, ⟨hpath, hmove, hne, hchunks⟩ =>
    have hheader := h.counted.processLine (hpath.trimmed_marker (fun c hc => by cases hc; rfl))
      (h.counted.handle_updateFile path)
    have hupdating : (p.counted.beginHunk (.updateFile path none [])
        (.updateFile p.counted.lineNumber)).Updating done path none [] :=
      ⟨by rw [← h.read]; rfl, h.environment, _, rfl⟩
    obtain ⟨q, hq, hmoved⟩ := hupdating.destination hmove
    obtain ⟨r, hr, hread⟩ := hmoved.printedChunks rfl hchunks
    refine ⟨r, .cons hheader (hq.append hr), ?_⟩
    obtain ⟨n, hmode⟩ := hread.mode
    refine ⟨hread.read, hread.environment, by rw [hmode]; nofun, by rw [hmode]; nofun, ?_⟩
    intro path' movePath' chunks' hlast
    simp only [List.getLast?_concat, Option.some.injEq, Hunk.updateFile.injEq] at hlast
    obtain ⟨-, -, rfl⟩ := hlast
    refine ⟨chunks.getLast hne, by simp [List.getLast?_eq_some_getLast hne], ?_⟩
    exact isBlank_of_printable (hchunks _ (List.getLast_mem hne))

theorem Ready.printedHunks {done hunks : List Hunk} (h : p.Ready done)
    (hprintable : ∀ hunk ∈ hunks, hunk.Printable) :
    ∃ q, p.Reads (hunks.flatMap (·.print)) q ∧ q.Ready (done ++ hunks) := by
  induction hunks generalizing p done with
  | nil => exact ⟨p, .nil p, by simpa using h⟩
  | cons hunk hunks ih =>
    obtain ⟨q, hq, hready⟩ := h.hunk (hprintable hunk List.mem_cons_self)
    obtain ⟨r, hr, hdone⟩ := ih hready (fun x hx => hprintable x (List.mem_cons_of_mem _ hx))
    exact ⟨r, hq.append hr, by simpa using hdone⟩

/-! ### Lines and characters -/

theorem handle_lineBuffer {p q : StreamingPatchParser} {line : Text}
    (h : p.handleHunkHeadersAndEndPatch line = .ok (some q)) : q.lineBuffer = p.lineBuffer := by
  unfold handleHunkHeadersAndEndPatch at h
  split_ifs at h
  · obtain ⟨next, hnext, hq⟩ := Except.map_eq_ok.mp h
    simp only [handleEnvironmentId, Except.bind_unit_eq_ok] at hnext
    cases hq
    cases hnext.2.2
    rfl
  · obtain ⟨-, -, hq⟩ := Except.map_eq_ok.mp h
    cases hq
    rfl
  · obtain ⟨-, -, hq⟩ := Except.map_eq_ok.mp h
    cases hq
    rfl
  · obtain ⟨-, -, hq⟩ := Except.map_eq_ok.mp h
    cases hq
    rfl
  · obtain ⟨-, -, hq⟩ := Except.map_eq_ok.mp h
    cases hq
    rfl
  · cases h

theorem processUpdateLine_lineBuffer {p q : StreamingPatchParser} {line : Text}
    (h : p.processUpdateLine line = .ok q) : q.lineBuffer = p.lineBuffer := by
  unfold processUpdateLine at h
  split at h
  · obtain ⟨next, -, hq⟩ := Except.map_eq_ok.mp h
    cases hq
    rfl
  · cases h

theorem processAddLine_lineBuffer {p q : StreamingPatchParser} {line : Text}
    (h : p.processAddLine line = .ok q) : q.lineBuffer = p.lineBuffer := by
  unfold processAddLine at h
  split at h
  · cases h
    rfl
  · cases h

theorem processLine_lineBuffer {p q : StreamingPatchParser} {line : Text}
    (h : p.processLine line = .ok q) : q.lineBuffer = p.lineBuffer := by
  rcases processLine_cases h with ⟨-, hbuffer⟩ | ⟨_, h⟩ | h | h
  · exact hbuffer
  · exact handle_lineBuffer h
  · exact processAddLine_lineBuffer h
  · exact processUpdateLine_lineBuffer h

theorem foldlM_pushChar (p : StreamingPatchParser) {line : Text} (h : '\n' ∉ line) :
    line.foldlM pushChar p = .ok { p with lineBuffer := p.lineBuffer ++ line } := by
  induction line generalizing p with
  | nil => simp [pure, Except.pure]
  | cons c line ih =>
    have hc : c ≠ '\n' := fun heq => h (heq ▸ List.mem_cons_self)
    rw [List.foldlM_cons, pushChar, if_neg hc]
    have hrest := ih { p with lineBuffer := p.lineBuffer ++ [c] }
      (fun hmem => h (List.mem_cons_of_mem c hmem))
    simpa [bind, Except.bind] using hrest

theorem stripCarriageReturn_of_lineText {line : Text} (h : LineText line) :
    stripCarriageReturn line = line := by
  rw [stripCarriageReturn, if_neg h.noReturn]

/-- **The characters of lines make up the lines**: what the machine reads line by line
it reads character by character, and the last line is left for the end. -/
theorem pushDelta_joinLines {p q : StreamingPatchParser} {lines : List Text}
    (hbuffer : p.lineBuffer = []) (hlines : ∀ line ∈ lines, LineText line) (hlast : '\n' ∉ last)
    (h : p.Reads lines q) :
    p.pushDelta (joinLines (lines ++ [last])) = .ok { q with lineBuffer := last } := by
  induction lines generalizing p with
  | nil =>
    have hsame : p = q := Except.ok.inj h
    subst hsame
    rw [List.nil_append, joinLines, List.intercalate_singleton, pushDelta, foldlM_pushChar p hlast,
      hbuffer, List.nil_append]
  | cons line lines ih =>
    obtain ⟨next, hnext, hreads⟩ := Except.bind_eq_ok.mp ((List.foldlM_cons ..).symm.trans h)
    have hline := hlines line List.mem_cons_self
    have hjoin : joinLines (line :: lines ++ [last]) =
        line ++ '\n' :: joinLines (lines ++ [last]) := by
      cases lines <;> simp [joinLines, List.intercalate_cons_cons]
    have hfeed : pushChar { p with lineBuffer := line } '\n' = .ok next := by
      rw [pushChar, if_pos rfl, stripCarriageReturn_of_lineText hline]
      exact hnext
    rw [hjoin, pushDelta, List.foldlM_append, foldlM_pushChar p hline.oneLine, hbuffer,
      List.nil_append]
    simp only [bind, Except.bind, List.foldlM_cons, hfeed]
    exact ih (processLine_lineBuffer hnext) (fun l hl => hlines l (List.mem_cons_of_mem line hl))
      hreads

end StreamingPatchParser

/-! ### The lines of a patch -/

theorem lineText_marker {marker name : Text} (hmarker : '\n' ∉ marker) (hname : Nameable name) :
    LineText (marker ++ name) := by
  refine ⟨?_, ?_⟩
  · rw [List.mem_append]
    rintro (h | h)
    · exact hmarker h
    · exact hname.oneLine h
  · rw [List.getLast?_append_of_ne_nil _ hname.nonempty]
    intro hlast
    exact absurd (hname.trimmed '\r' hlast) (by decide)

theorem lineText_content {text : Text} (hc : c ≠ '\n' ∧ c ≠ '\r') (htext : LineText text) :
    LineText (c :: text) := by
  refine ⟨?_, ?_⟩
  · rw [List.mem_cons]
    rintro (h | h)
    · exact hc.1 h.symm
    · exact htext.oneLine h
  · rw [List.getLast?_cons]
    intro hlast
    cases hlast' : text.getLast? with
    | none =>
      rw [hlast'] at hlast
      exact hc.2 (Option.some.inj hlast)
    | some x =>
      rw [hlast'] at hlast
      exact htext.noReturn (hlast'.trans hlast)

theorem UpdateFileChunk.lineText_body (h : chunk.Printable)
    (hequal : ∀ place ∈ places, ∃ line, chunk.oldLines[place.1]? = some line) :
    ∀ line ∈ chunk.bodyFrom o n places, LineText line := by
  have hold : ∀ lines : List Text, lines ⊆ chunk.oldLines →
      ∀ line ∈ lines.map ('-' :: ·), LineText line := by
    intro lines hsub line hline
    obtain ⟨text, htext, rfl⟩ := List.mem_map.mp hline
    exact lineText_content (by decide) (h.old text (hsub htext))
  have hnew : ∀ lines : List Text, lines ⊆ chunk.newLines →
      ∀ line ∈ lines.map ('+' :: ·), LineText line := by
    intro lines hsub line hline
    obtain ⟨text, htext, rfl⟩ := List.mem_map.mp hline
    exact lineText_content (by decide) (h.new text (hsub htext))
  induction places generalizing o n with
  | nil =>
    intro line hline
    rcases List.mem_append.mp hline with hline | hline
    · exact hold _ (List.drop_subset _ _) line hline
    · exact hnew _ (List.drop_subset _ _) line hline
  | cons place places ih =>
    obtain ⟨a, b⟩ := place
    intro line hline
    simp only [UpdateFileChunk.bodyFrom, List.mem_append, List.mem_singleton] at hline
    rcases hline with ((hline | hline) | rfl) | hline
    · exact hold _ (fun _ hmem => List.mem_of_mem_take (List.mem_of_mem_drop hmem)) line hline
    · exact hnew _ (fun _ hmem => List.mem_of_mem_take (List.mem_of_mem_drop hmem)) line hline
    · obtain ⟨text, htext⟩ := hequal (a, b) List.mem_cons_self
      rw [List.getD_eq_getElem?_getD, htext]
      exact lineText_content (by decide) (h.old text (List.mem_of_getElem? htext))
    · exact ih (fun place hplace => hequal place (List.mem_cons_of_mem _ hplace)) line hline

theorem UpdateFileChunk.lineText_heading (h : chunk.Printable) : LineText chunk.heading := by
  unfold heading
  match hc : chunk.changeContext with
  | none => exact ⟨by decide, by decide⟩
  | some context => exact lineText_marker (by decide) (h.context context (by rw [hc]; rfl))

theorem UpdateFileChunk.lineText_print (h : chunk.Printable) :
    ∀ line ∈ chunk.print, LineText line := by
  intro line hline
  simp only [print, List.mem_append, List.mem_cons] at hline
  rcases hline with (rfl | hline) | hline
  · exact lineText_heading h
  · refine lineText_body h (fun place hplace => ?_) line hline
    obtain ⟨text, htext, -⟩ := h.equal place hplace
    exact ⟨text, htext⟩
  · split at hline
    · rw [List.mem_singleton.mp hline]
      exact ⟨by decide, by decide⟩
    · cases hline

theorem Hunk.lineText_print {hunk : Hunk} (h : hunk.Printable) :
    ∀ line ∈ hunk.print, LineText line := by
  intro line hline
  match hunk, h with
  | .addFile path contents, ⟨hpath, lines, hcontents, hlines⟩ =>
    rw [Hunk.print, hcontents, StreamingPatchParser.wholeLines_flatMap hlines] at hline
    rcases List.mem_cons.mp hline with rfl | hline
    · exact lineText_marker (by decide) hpath
    · obtain ⟨text, htext, rfl⟩ := List.mem_map.mp hline
      exact lineText_content (by decide) (hlines text htext)
  | .deleteFile path, hpath =>
    rw [List.mem_singleton.mp hline]
    exact lineText_marker (by decide) hpath
  | .updateFile path movePath chunks, ⟨hpath, hmove, _, hchunks⟩ =>
    simp only [Hunk.print, List.mem_cons, List.mem_append, List.mem_map, List.mem_flatMap,
      Option.mem_toList] at hline
    rcases hline with rfl | ⟨dest, hdest, rfl⟩ | ⟨chunk, hchunk, hline⟩
    · exact lineText_marker (by decide) hpath
    · exact lineText_marker (by decide) (hmove dest hdest)
    · exact UpdateFileChunk.lineText_print (hchunks chunk hchunk) line hline

theorem lineText_patchLines (h : ∀ hunk ∈ hunks, hunk.Printable) :
    ∀ line ∈ beginPatchMarker :: hunks.flatMap (·.print), LineText line := by
  intro line hline
  rcases List.mem_cons.mp hline with rfl | hline
  · exact ⟨by decide, by decide⟩
  · obtain ⟨hunk, hhunk, hmem⟩ := List.mem_flatMap.mp hline
    exact Hunk.lineText_print (h hunk hhunk) line hmem

/-! ### Whole texts -/

theorem splitChar_joinLines {lines : List Text} (hne : lines ≠ [])
    (h : ∀ line ∈ lines, '\n' ∉ line) : splitChar '\n' (joinLines lines) = lines := by
  induction lines with
  | nil => exact absurd rfl hne
  | cons line lines ih =>
    match lines, ih with
    | [], _ =>
      rw [joinLines, List.intercalate_singleton]
      exact splitChar_of_not_mem (h line List.mem_cons_self)
    | second :: lines, ih =>
      have hrest := ih (List.cons_ne_nil _ _) (fun l hl => h l (List.mem_cons_of_mem line hl))
      rw [joinLines] at hrest
      rw [joinLines, List.intercalate_cons_cons, List.append_assoc, List.singleton_append,
        splitChar_append_cons (h line List.mem_cons_self), hrest]

theorem linesOf_joinLines {lines : List Text} (hlines : ∀ line ∈ lines, LineText line)
    (hlast : '\n' ∉ last) (hne : last ≠ []) :
    linesOf (joinLines (lines ++ [last])) = lines ++ [last] := by
  have hsplit : splitChar '\n' (joinLines (lines ++ [last])) = lines ++ [last] := by
    refine splitChar_joinLines (by simp) fun line hline => ?_
    rcases List.mem_append.mp hline with hline | hline
    · exact (hlines line hline).oneLine
    · rw [List.mem_singleton.mp hline]
      exact hlast
  have hmap : lines.map stripCarriageReturn = lines := by
    refine (List.map_congr_left fun line hline => ?_).trans (List.map_id lines)
    exact StreamingPatchParser.stripCarriageReturn_of_lineText (hlines line hline)
  simp only [linesOf, hsplit, List.dropLast_concat, List.getLast?_concat, hmap]
  simp [hne]

theorem joinLines_cons (first : Text) (rest : List Text) :
    joinLines (first :: rest) = first ++ rest.flatMap ('\n' :: ·) := by
  induction rest generalizing first with
  | nil => simp [joinLines]
  | cons second rest ih =>
    rw [joinLines, List.intercalate_cons_cons, ← joinLines, ih, List.flatMap_cons]
    simp

/-- A printed patch begins with the star of its first marker and ends with the last
character of its last one. -/
theorem trimmed_printPatch (hunks : List Hunk) : Trimmed (printPatch hunks) := by
  have hshape : printPatch hunks = beginPatchMarker ++
      ((hunks.flatMap (·.print)).flatMap ('\n' :: ·) ++ '\n' :: endPatchMarker) := by
    simp [printPatch, patchLines, joinLines_cons]
  rw [hshape]
  refine ⟨?_, ?_, ?_⟩
  · simp
  · intro c hc
    cases hc
    rfl
  · intro c hc
    rw [List.getLast?_append_of_ne_nil _ (by simp), List.getLast?_append_of_ne_nil _
      (by simp)] at hc
    cases hc
    rfl

theorem trimChars_append {s tail : Text} (hs : Trimmed s)
    (htail : ∀ c ∈ tail, isWhitespace c = true) : trimChars (s ++ tail) = s := by
  match s, hs with
  | c :: s, hs =>
    have hhead := hs.head c rfl
    rw [trimChars, List.cons_append, List.dropWhile_cons_of_neg (by simp [hhead]),
      ← List.cons_append, List.rdropWhile, List.reverse_append,
      List.dropWhile_append_of_pos (fun c hc => htail c (List.mem_reverse.mp hc))]
    exact hs.trimEnd

theorem checkPatchBoundaries_patchLines (hunks : List Hunk) :
    checkPatchBoundariesLenient (patchLines hunks) = .ok (patchLines hunks) := by
  have hfirst : (patchLines hunks).head? = some beginPatchMarker := rfl
  have hlast : (patchLines hunks).getLast? = some endPatchMarker := by
    rw [patchLines, List.getLast?_concat]
  have hbegin : trimChars beginPatchMarker = beginPatchMarker := by decide
  have hend : trimChars endPatchMarker = endPatchMarker := by decide
  simp [checkPatchBoundariesLenient, checkPatchBoundariesStrict, checkStartAndEndLinesStrict,
    hfirst, hlast, hbegin, hend, Except.map]

namespace StreamingPatchParser

theorem nextLine_beginPatch : ∃ p, initial.nextLine beginPatchMarker = .ok p ∧ p.Ready [] :=
  have htrim : trimChars beginPatchMarker = beginPatchMarker := by decide
  ⟨{ initial.counted with mode := .startedPatch },
    by simp [nextLine, processLine, initial, counted, htrim],
    rfl, rfl, nofun, nofun, fun _ _ _ hlast => by simp at hlast⟩

theorem Ready.finish (h : p.Ready hunks) :
    ∃ q, StreamingPatchParser.finish { p with lineBuffer := endPatchMarker } = .ok q ∧
      q.hunks = hunks ∧ q.environmentId = none := by
  have htrim : trimChars endPatchMarker = endPatchMarker := by decide
  have hne : endPatchMarker ≠ [] := by decide
  refine ⟨{ p.counted with mode := .endedPatch }, ?_, h.read, h.environment⟩
  have hensure := h.counted.ensure endPatchMarker
  rw [StreamingPatchParser.counted] at hensure
  simp only [StreamingPatchParser.finish, finishLine, if_neg hne, htrim, if_true, hensure]
  rfl

end StreamingPatchParser

/-- **Printed patches are read back**: for every list of hunks that the grammar of
patches can express, the text that is printed for it, with or without white space
behind it, is read as the same hunks, and no line of theirs is taken for a header. -/
theorem parsePatch_printPatch (hunks : List Hunk) (hprintable : ∀ hunk ∈ hunks, hunk.Printable)
    (tail : Text) (htail : ∀ c ∈ tail, isWhitespace c = true) :
    parsePatch (printPatch hunks ++ tail) = .ok ⟨printPatch hunks, hunks, none, none⟩ := by
  have hlineTexts := lineText_patchLines hprintable
  have hlines : linesOf (printPatch hunks) = patchLines hunks :=
    linesOf_joinLines hlineTexts (by decide) (by decide)
  obtain ⟨p, hbegin, hready⟩ := StreamingPatchParser.nextLine_beginPatch
  obtain ⟨q, hreads, hdone⟩ := hready.printedHunks hprintable
  have hpush : StreamingPatchParser.initial.pushDelta (joinLines (patchLines hunks)) =
      .ok { q with lineBuffer := endPatchMarker } :=
    StreamingPatchParser.pushDelta_joinLines rfl hlineTexts (by decide) (.cons hbegin hreads)
  obtain ⟨r, hfinish, hhunks, henvironment⟩ := hdone.finish
  rw [List.nil_append] at hhunks
  simp only [parsePatch, trimChars_append (trimmed_printPatch hunks) htail, hlines,
    checkPatchBoundaries_patchLines, bind, Except.bind, hpush, hfinish, hhunks, henvironment]
  rfl

/-- Hunks whose lines look like headers. -/
def misleadingHunks : List Hunk :=
  [.addFile "a".toList "*** End Patch\n".toList,
    .updateFile "b".toList (some "c".toList)
      [⟨some "fn".toList, ["@@".toList, "x ".toList], ["*** End of File".toList, "x ".toList],
        [(1, 1)], true⟩],
    .deleteFile "d".toList]

theorem parsePatch_printPatch_misleading :
    parsePatch (printPatch misleadingHunks ++ ['\n']) =
      .ok ⟨printPatch misleadingHunks, misleadingHunks, none, none⟩ := by
  have hname : ∀ c : Char, c ≠ '\n' → isWhitespace c = false → Nameable [c] := by
    intro c hline hblack
    refine ⟨List.cons_ne_nil _ _, by simpa using hline.symm, ?_⟩
    rintro _ ⟨⟩
    exact hblack
  have hadd : (Hunk.addFile "a".toList "*** End Patch\n".toList).Printable :=
    ⟨hname 'a' (by decide) (by decide), ["*** End Patch".toList], by decide,
      by simpa using ⟨by decide, by decide⟩⟩
  refine parsePatch_printPatch misleadingHunks ?_ ['\n'] (List.forall_mem_singleton.mpr rfl)
  simp only [misleadingHunks, List.forall_mem_cons]
  refine ⟨hadd, ⟨hname 'b' (by decide) (by decide), ?_, by decide, ?_⟩,
    hname 'd' (by decide) (by decide), List.forall_mem_nil _⟩
  · rintro _ ⟨⟩
    exact hname 'c' (by decide) (by decide)
  · simp only [List.forall_mem_cons]
    refine ⟨⟨?_, ?_, ?_, by decide, by decide, ?_⟩, List.forall_mem_nil _⟩
    · rintro _ ⟨⟩
      exact ⟨by decide, by decide, by rintro _ ⟨⟩; decide⟩
    · simp only [List.forall_mem_cons]
      exact ⟨⟨by decide, by decide⟩, ⟨by decide, by decide⟩, List.forall_mem_nil _⟩
    · simp only [List.forall_mem_cons]
      exact ⟨⟨by decide, by decide⟩, ⟨by decide, by decide⟩, List.forall_mem_nil _⟩
    · simp only [List.forall_mem_cons]
      exact ⟨⟨_, rfl, rfl⟩, List.forall_mem_nil _⟩

end Rivloom.ApplyPatch
