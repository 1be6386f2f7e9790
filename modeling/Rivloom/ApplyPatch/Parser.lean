import Rivloom.Lib.Action
import Rivloom.Lib.RustText

/-!
# Patches and how they are read

A patch is a text of lines between `*** Begin Patch` and `*** End Patch`, and each
of its **hunks** adds, deletes or updates a file. The reader of patches,
`Rivloom.ApplyPatch.StreamingPatchParser`, is a machine that takes one line at a
time: its mode is the kind of the hunk it is in, the hunk it is in is the last one
of its list, and every line either is a header, which begins a hunk or ends the
patch, or is added to the last hunk
(`Rivloom.ApplyPatch.StreamingPatchParser.processLine`).

`Rivloom.ApplyPatch.parsePatch` feeds the machine a whole text. It is lenient: the
text is trimmed, a patch in a heredoc is taken out of it, and headers may have
white space around them – in front only outside of an update, where white space in
front makes a line a context line.
-/

namespace Rivloom.ApplyPatch

/-! ### Markers -/

def beginPatchMarker : Text := "*** Begin Patch".toList
def endPatchMarker : Text := "*** End Patch".toList
def addFileMarker : Text := "*** Add File: ".toList
def deleteFileMarker : Text := "*** Delete File: ".toList
def updateFileMarker : Text := "*** Update File: ".toList
def moveToMarker : Text := "*** Move to: ".toList
def eofMarker : Text := "*** End of File".toList
def changeContextMarker : Text := "@@ ".toList
def emptyChangeContextMarker : Text := "@@".toList
def environmentIdMarker : Text := "*** Environment ID:".toList

/-! ### Hunks -/

/-- `UpdateFileChunk`: a block of lines and what it is replaced by. -/
structure UpdateFileChunk where
  /-- A line that the block stands behind. -/
  changeContext : Option Text
  oldLines : List Text
  newLines : List Text
  /-- The places in the old and the new lines of those that are context. -/
  contextLineIndices : List (ℕ × ℕ)
  isEndOfFile : Bool
  deriving Repr, DecidableEq

namespace UpdateFileChunk

/-- `UpdateFileChunk::default()`, behind a line of context. -/
def empty (changeContext : Option Text) : UpdateFileChunk := ⟨changeContext, [], [], [], false⟩

/-- `push_context_line`. -/
def pushContextLine (chunk : UpdateFileChunk) (line : Text) : UpdateFileChunk :=
  { chunk with
    contextLineIndices := chunk.contextLineIndices ++
      [(chunk.oldLines.length, chunk.newLines.length)]
    oldLines := chunk.oldLines ++ [line]
    newLines := chunk.newLines ++ [line] }

/-- Adds an added line. -/
def pushNewLine (chunk : UpdateFileChunk) (line : Text) : UpdateFileChunk :=
  { chunk with newLines := chunk.newLines ++ [line] }

/-- Adds a removed line. -/
def pushOldLine (chunk : UpdateFileChunk) (line : Text) : UpdateFileChunk :=
  { chunk with oldLines := chunk.oldLines ++ [line] }

/-- A chunk without a line. -/
def isBlank (chunk : UpdateFileChunk) : Bool := chunk.oldLines.isEmpty && chunk.newLines.isEmpty

end UpdateFileChunk

/-- `Hunk`. -/
inductive Hunk where
  | addFile (path contents : Text)
  | deleteFile (path : Text)
  | updateFile (path : Text) (movePath : Option Text) (chunks : List UpdateFileChunk)
  deriving Repr, DecidableEq

/-- `ParseError`. -/
inductive ParseError where
  | invalidPatch (message : String)
  | invalidHunk (message : String) (lineNumber : ℕ)
  deriving Repr, DecidableEq

/-- `ApplyPatchArgs`. -/
structure ApplyPatchArgs where
  patch : Text
  hunks : List Hunk
  workdir : Option Text
  environmentId : Option Text
  deriving Repr, DecidableEq

/-! ### Messages -/

def firstLineMessage : String := "The first line of the patch must be '*** Begin Patch'"

def lastLineMessage : String := "The last line of the patch must be '*** End Patch'"

def invalidHeaderMessage (line : Text) : String :=
  "'" ++ String.ofList line ++ "' is not a valid hunk header. Valid hunk headers: " ++
    "'*** Add File: \x7bpath\x7d', '*** Delete File: \x7bpath\x7d', " ++
    "'*** Update File: \x7bpath\x7d'"

def unexpectedLineMessage (line : Text) : String :=
  "Unexpected line found in update hunk: '" ++ String.ofList line ++
    "'. Every line should start with ' ' (context line), '+' (added line), or '-' (removed line)"

def expectedContextMessage (line : Text) : String :=
  "Expected update hunk to start with a @@ context marker, got: '" ++ String.ofList line ++ "'"

def emptyHunkMessage (path : Text) : String :=
  "Update file hunk for path '" ++ String.ofList path ++ "' is empty"

def noLinesMessage : String := "Update hunk does not contain any lines"

/-! ### The machine -/

/-- `StreamingParserMode`. -/
inductive StreamingParserMode where
  | notStarted
  | startedPatch
  | addFile
  | deleteFile
  | updateFile (hunkLineNumber : ℕ)
  | endedPatch
  deriving Repr, DecidableEq

/-- `StreamingPatchParser`. -/
structure StreamingPatchParser where
  lineBuffer : Text
  mode : StreamingParserMode
  hunks : List Hunk
  environmentId : Option Text
  lineNumber : ℕ
  deriving Repr, DecidableEq

namespace StreamingPatchParser

/-- `StreamingPatchParser::default()`. -/
def initial : StreamingPatchParser := ⟨[], .notStarted, [], none, 0⟩

/-- `ensure_update_hunk_is_not_empty`. -/
def ensureUpdateHunkIsNotEmpty (p : StreamingPatchParser) (line : Text) : Except ParseError Unit :=
  match p.hunks.getLast?, p.mode with
  | some (.updateFile path _ []), .updateFile hunkLineNumber =>
    .error (.invalidHunk (emptyHunkMessage path) hunkLineNumber)
  | some (.updateFile _ _ chunks), _ =>
    Except.failIf (chunks.getLast?.any (·.isBlank))
      (.invalidHunk (if line = endPatchMarker then noLinesMessage else unexpectedLineMessage line)
        p.lineNumber)
  | _, _ => .ok ()

/-- Begins a hunk. -/
def beginHunk (p : StreamingPatchParser) (hunk : Hunk) (mode : StreamingParserMode) :
    StreamingPatchParser :=
  { p with hunks := p.hunks ++ [hunk], mode := mode }

/-- The part of `handle_hunk_headers_and_end_patch` about the environment. -/
def handleEnvironmentId (p : StreamingPatchParser) (environmentId : Text) :
    Except ParseError StreamingPatchParser := do
  Except.failIf p.environmentId.isSome
    (.invalidPatch "apply_patch environment_id cannot be specified more than once")
  Except.failIf (trimChars environmentId).isEmpty
    (.invalidPatch "apply_patch environment_id cannot be empty")
  return { p with environmentId := some (trimChars environmentId) }

/-- `handle_hunk_headers_and_end_patch`: the next state if the line is a header. -/
def handleHunkHeadersAndEndPatch (p : StreamingPatchParser) (trimmed : Text) :
    Except ParseError (Option StreamingPatchParser) :=
  if p.mode = .startedPatch ∧ environmentIdMarker.isPrefixOf trimmed then
    (handleEnvironmentId p (trimmed.drop environmentIdMarker.length)).map some
  else if trimmed = endPatchMarker then
    (p.ensureUpdateHunkIsNotEmpty trimmed).map fun _ => some { p with mode := .endedPatch }
  else if addFileMarker.isPrefixOf trimmed then
    (p.ensureUpdateHunkIsNotEmpty trimmed).map fun _ =>
      some (p.beginHunk (.addFile (trimmed.drop addFileMarker.length) []) .addFile)
  else if deleteFileMarker.isPrefixOf trimmed then
    (p.ensureUpdateHunkIsNotEmpty trimmed).map fun _ =>
      some (p.beginHunk (.deleteFile (trimmed.drop deleteFileMarker.length)) .deleteFile)
  else if updateFileMarker.isPrefixOf trimmed then
    (p.ensureUpdateHunkIsNotEmpty trimmed).map fun _ =>
      some (p.beginHunk (.updateFile (trimmed.drop updateFileMarker.length) none [])
        (.updateFile p.lineNumber))
  else .ok none

/-- The last chunk changed; an update without a chunk gets one first. -/
def onLastChunk (change : UpdateFileChunk → UpdateFileChunk) (chunks : List UpdateFileChunk) :
    List UpdateFileChunk :=
  match chunks.getLast? with
  | some chunk => chunks.dropLast ++ [change chunk]
  | none => [change (.empty none)]

/-- A line of an update that is no marker, by its first character. -/
def contentStep (lineNumber : ℕ) (line : Text) (movePath : Option Text)
    (chunks : List UpdateFileChunk) : Except ParseError (Option Text × List UpdateFileChunk) :=
  match line with
  | [] => .ok (movePath, onLastChunk (·.pushContextLine []) chunks)
  | ' ' :: text => .ok (movePath, onLastChunk (·.pushContextLine text) chunks)
  | '+' :: text => .ok (movePath, onLastChunk (·.pushNewLine text) chunks)
  | '-' :: text => .ok (movePath, onLastChunk (·.pushOldLine text) chunks)
  | _ =>
    .error (.invalidHunk (if chunks.getLast?.any (!·.isBlank) then expectedContextMessage line
      else unexpectedLineMessage line) lineNumber)

/-- A line of an update that is no header, on the destination and the chunks of the
update. -/
def updateStep (lineNumber : ℕ) (line : Text) (movePath : Option Text)
    (chunks : List UpdateFileChunk) : Except ParseError (Option Text × List UpdateFileChunk) :=
  let updateLine := trimEndChars line
  let isContextMarker : Bool :=
    updateLine = emptyChangeContextMarker || changeContextMarker.isPrefixOf updateLine
  let lastIsBlank : Bool := chunks.getLast?.any (·.isBlank)
  let lastIsEof : Bool := chunks.getLast?.any (·.isEndOfFile)
  if lastIsEof && updateLine.isEmpty then .ok (movePath, chunks)
  else if lastIsEof && !isContextMarker then
    .error (.invalidHunk (expectedContextMessage line) lineNumber)
  else if chunks.isEmpty && movePath.isNone && moveToMarker.isPrefixOf updateLine then
    .ok (some (updateLine.drop moveToMarker.length), chunks)
  else if isContextMarker && lastIsBlank then
    .error (.invalidHunk (unexpectedLineMessage line) lineNumber)
  else if updateLine = emptyChangeContextMarker then .ok (movePath, chunks ++ [.empty none])
  else if changeContextMarker.isPrefixOf updateLine then
    .ok (movePath, chunks ++ [.empty (some (updateLine.drop changeContextMarker.length))])
  else if updateLine = eofMarker then
    if lastIsBlank then .error (.invalidHunk noLinesMessage lineNumber)
    else if chunks.isEmpty then .ok (movePath, chunks)
    else .ok (movePath, onLastChunk (fun chunk => { chunk with isEndOfFile := true }) chunks)
  else contentStep lineNumber line movePath chunks

/-- A line of an update that is no header. -/
def processUpdateLine (p : StreamingPatchParser) (line : Text) :
    Except ParseError StreamingPatchParser :=
  match p.hunks.getLast? with
  | some (.updateFile path movePath chunks) =>
    (updateStep p.lineNumber line movePath chunks).map fun next =>
      { p with hunks := p.hunks.dropLast ++ [.updateFile path next.1 next.2] }
  | _ => .error (.invalidHunk (unexpectedLineMessage line) p.lineNumber)

/-- A line of an added file that is no header. -/
def processAddLine (p : StreamingPatchParser) (line : Text) :
    Except ParseError StreamingPatchParser :=
  match line, p.hunks.getLast? with
  | '+' :: text, some (.addFile path contents) =>
    .ok { p with hunks := p.hunks.dropLast ++ [.addFile path (contents ++ text ++ ['\n'])] }
  | _, _ => .error (.invalidHunk (invalidHeaderMessage (trimChars line)) p.lineNumber)

/-- `process_line`. -/
def processLine (p : StreamingPatchParser) (line : Text) :
    Except ParseError StreamingPatchParser :=
  let trimmed := trimChars line
  match p.mode with
  | .notStarted =>
    if trimmed = beginPatchMarker then .ok { p with mode := .startedPatch }
    else .error (.invalidPatch firstLineMessage)
  | .startedPatch => do
    match ← p.handleHunkHeadersAndEndPatch trimmed with
    | some next => .ok next
    | none => .error (.invalidHunk (invalidHeaderMessage trimmed) p.lineNumber)
  | .addFile => do
    match ← p.handleHunkHeadersAndEndPatch trimmed with
    | some next => .ok next
    | none => p.processAddLine line
  | .deleteFile => do
    match ← p.handleHunkHeadersAndEndPatch trimmed with
    | some next => .ok next
    | none => .error (.invalidHunk (invalidHeaderMessage trimmed) p.lineNumber)
  | .updateFile _ => do
    match ← p.handleHunkHeadersAndEndPatch (trimEndChars line) with
    | some next => .ok next
    | none => p.processUpdateLine line
  | .endedPatch =>
    if trimmed.isEmpty then .ok p else .error (.invalidPatch lastLineMessage)

/-- What reads a line: it is outside the patch, a marker, or a line of the hunk that is open. -/
theorem processLine_cases {p q : StreamingPatchParser} {line : Text}
    (h : p.processLine line = .ok q) : q.hunks = p.hunks ∧ q.lineBuffer = p.lineBuffer ∨
      (∃ marker, p.handleHunkHeadersAndEndPatch marker = .ok (some q)) ∨
      p.processAddLine line = .ok q ∨ p.processUpdateLine line = .ok q := by
  simp only [processLine] at h
  split at h
  · split_ifs at h
    obtain rfl := Except.ok.inj h
    exact Or.inl ⟨rfl, rfl⟩
  · obtain ⟨_ | next, hhandled, h⟩ := Except.bind_eq_ok.mp h
    · exact nomatch h
    · exact Or.inr (Or.inl ⟨_, Except.ok.inj h ▸ hhandled⟩)
  · obtain ⟨_ | next, hhandled, h⟩ := Except.bind_eq_ok.mp h
    · exact Or.inr (Or.inr (Or.inl h))
    · exact Or.inr (Or.inl ⟨_, Except.ok.inj h ▸ hhandled⟩)
  · obtain ⟨_ | next, hhandled, h⟩ := Except.bind_eq_ok.mp h
    · exact nomatch h
    · exact Or.inr (Or.inl ⟨_, Except.ok.inj h ▸ hhandled⟩)
  · obtain ⟨_ | next, hhandled, h⟩ := Except.bind_eq_ok.mp h
    · exact Or.inr (Or.inr (Or.inr h))
    · exact Or.inr (Or.inl ⟨_, Except.ok.inj h ▸ hhandled⟩)
  · split_ifs at h
    obtain rfl := Except.ok.inj h
    exact Or.inl ⟨rfl, rfl⟩

/-- A line that has been read whole. -/
def nextLine (p : StreamingPatchParser) (line : Text) : Except ParseError StreamingPatchParser :=
  processLine { p with lineBuffer := [], lineNumber := p.lineNumber + 1 } line

/-- One character of `push_delta`. -/
def pushChar (p : StreamingPatchParser) (c : Char) : Except ParseError StreamingPatchParser :=
  if c = '\n' then p.nextLine (stripCarriageReturn p.lineBuffer)
  else .ok { p with lineBuffer := p.lineBuffer ++ [c] }

/-- `push_delta`. -/
def pushDelta (p : StreamingPatchParser) (delta : Text) : Except ParseError StreamingPatchParser :=
  delta.foldlM pushChar p

/-- The last line, which no line feed ends: in `finish` it may be the end of the patch in
every mode. -/
def finishLine (p : StreamingPatchParser) : Except ParseError StreamingPatchParser :=
  let counted := { p with lineBuffer := [], lineNumber := p.lineNumber + 1 }
  if p.lineBuffer = [] then .ok p
  else if trimChars p.lineBuffer = endPatchMarker then
    (counted.ensureUpdateHunkIsNotEmpty endPatchMarker).map fun _ =>
      { counted with mode := .endedPatch }
  else counted.processLine p.lineBuffer

/-- `finish`. -/
def finish (p : StreamingPatchParser) : Except ParseError StreamingPatchParser := do
  let p ← p.finishLine
  Except.failIf (p.mode ≠ .endedPatch) (.invalidPatch lastLineMessage)
  return p

end StreamingPatchParser

/-! ### Whole texts -/

/-- `check_start_and_end_lines_strict`. -/
def checkStartAndEndLinesStrict (firstLine lastLine : Option Text) : Except ParseError Unit :=
  if firstLine.map trimChars = some beginPatchMarker ∧
      lastLine.map trimChars = some endPatchMarker then .ok ()
  else if firstLine.any (trimChars · ≠ beginPatchMarker) then .error
    (.invalidPatch firstLineMessage)
  else .error (.invalidPatch lastLineMessage)

/-- `check_patch_boundaries_strict`. -/
def checkPatchBoundariesStrict (lines : List Text) : Except ParseError (List Text) :=
  (checkStartAndEndLinesStrict lines.head? lines.getLast?).map fun _ => lines

/-- The beginnings of a heredoc. -/
def heredocStarts : List Text := ["<<EOF".toList, "<<'EOF'".toList, "<<\"EOF\"".toList]

/-- `check_patch_boundaries_lenient`: if the lines are no patch, they may be one in a
heredoc. -/
def checkPatchBoundariesLenient (originalLines : List Text) : Except ParseError (List Text) :=
  match checkPatchBoundariesStrict originalLines with
  | .ok lines => .ok lines
  | .error e =>
    if originalLines.head?.any (· ∈ heredocStarts) ∧
        originalLines.getLast?.any ("EOF".toList.isSuffixOf ·) ∧ 4 ≤ originalLines.length then
      checkPatchBoundariesStrict originalLines.tail.dropLast
    else .error e

/-- Lines behind each other, with line feeds between them. -/
def joinLines (lines : List Text) : Text := ['\n'].intercalate lines

/-- `parse_patch`, which is lenient. -/
def parsePatch (patch : Text) : Except ParseError ApplyPatchArgs := do
  let patchLines ← checkPatchBoundariesLenient (linesOf (trimChars patch))
  let patch := joinLines patchLines
  let p ← StreamingPatchParser.initial.pushDelta patch
  let p ← p.finish
  return ⟨patch, p.hunks, none, p.environmentId⟩

end Rivloom.ApplyPatch
