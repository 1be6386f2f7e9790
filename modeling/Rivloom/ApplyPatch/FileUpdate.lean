import Mathlib.Data.List.Sort
import Rivloom.ApplyPatch.Parser

/-!
# Updating the text of a file

The chunks of an update are applied to the text of a file in three steps. Each
chunk is located in the lines of the file
(`Rivloom.ApplyPatch.seekSequence`, which tries four readings of a line one after
the other, from the exact text to one without white space around it and with plain
punctuation); the places make a list of replacements
(`Rivloom.ApplyPatch.computeReplacements`); and the replacements are applied to the
lines.

There are two modes. One takes the file apart at line feeds and writes it back with
line feeds; the other keeps the ending of every line that is not replaced
(`Rivloom.ApplyPatch.SourceFile`), and for that the context lines of a chunk are
left out of its replacements. The whole is
`Rivloom.ApplyPatch.newContents`, a function of the text, the chunks and the mode.
-/

namespace Rivloom.ApplyPatch

/-- `ApplyPatchFileUpdateMode`. -/
inductive ApplyPatchFileUpdateMode where
  | normalizeToLf
  | preserveLineEndings
  deriving Repr, DecidableEq

/-! ### Locating lines -/

/-- A character with dashes, quotes and blanks brought to their plain forms. -/
def normaliseChar (c : Char) : Char :=
  let n := c.toNat
  if (0x2010 ≤ n && n ≤ 0x2015) || n = 0x2212 then '-'
  else if 0x2018 ≤ n && n ≤ 0x201B then Char.ofNat 0x27
  else if 0x201C ≤ n && n ≤ 0x201F then Char.ofNat 0x22
  else if n = 0x00A0 || (0x2002 ≤ n && n ≤ 0x200A) || n = 0x202F || n = 0x205F || n = 0x3000 then
    ' '
  else c

/-- `normalise`. -/
def normalise (s : Text) : Text := (trimChars s).map normaliseChar

/-- The readings of a line, from the strictest to the most lenient. -/
def lineReadings : List (Text → Text) := [id, trimEndChars, trimChars, normalise]

/-- The first place from a start on at which the lines of a pattern stand, as read. -/
def seekReading (reading : Text → Text) (lines pattern : List Text) (searchStart : ℕ) : Option ℕ :=
  (List.range' searchStart (lines.length - pattern.length + 1 - searchStart)).find? fun i =>
    ((lines.drop i).take pattern.length).map reading = pattern.map reading

/-- `seek_sequence`. -/
def seekSequence (lines pattern : List Text) (start : ℕ) (eof : Bool)
    (mode : ApplyPatchFileUpdateMode) : Option ℕ :=
  if pattern = [] then some start
  else if lines.length < pattern.length then none
  else
    let eofStart := lines.length - pattern.length
    let searchStart :=
      match eof, mode with
      | true, .normalizeToLf => eofStart
      | true, .preserveLineEndings => max eofStart start
      | false, _ => start
    lineReadings.findSome? fun reading => seekReading reading lines pattern searchStart

/-! ### Replacements -/

/-- `Replacement`: from a place on, so many lines are replaced by these. -/
structure Replacement where
  start : ℕ
  oldLen : ℕ
  newLines : List Text
  deriving Repr, DecidableEq

/-- The rest of a chunk behind its last context line. -/
def lastReplacement (startIdx patternLen : ℕ) (newSlice : List Text) (oldStart newStart : ℕ) :
    List Replacement :=
  if oldStart = patternLen ∧ newStart = newSlice.length then []
  else [⟨startIdx + oldStart, patternLen - oldStart, newSlice.drop newStart⟩]

/-- The replacements of a chunk between its context lines, which are left in place. -/
def contextReplacements (startIdx patternLen : ℕ) (newSlice : List Text) (oldStart newStart : ℕ) :
    List (ℕ × ℕ) → List Replacement
  | [] => lastReplacement startIdx patternLen newSlice oldStart newStart
  | (oldContext, newContext) :: rest =>
    -- A context line that stood for the final line feed has been cut off.
    if patternLen ≤ oldContext ∨ newSlice.length ≤ newContext then
      lastReplacement startIdx patternLen newSlice oldStart newStart
    else
      (if oldStart = oldContext ∧ newStart = newContext then []
        else [⟨startIdx + oldStart, oldContext - oldStart,
          (newSlice.take newContext).drop newStart⟩]) ++
        contextReplacements startIdx patternLen newSlice (oldContext + 1) (newContext + 1) rest

/-- The old and the new lines of a chunk without an empty line at their ends, which
stood for the final line feed. -/
def withoutFinalLine (chunk : UpdateFileChunk) : List Text × List Text :=
  (chunk.oldLines.dropLast,
    if chunk.newLines.getLast? = some [] then chunk.newLines.dropLast else chunk.newLines)

/-- Where the old lines of a chunk stand, with the old and the new lines that go with
the place. -/
def locateChunk (lines : List Text) (chunk : UpdateFileChunk) (lineIndex : ℕ)
    (mode : ApplyPatchFileUpdateMode) : Option (ℕ × List Text × List Text) :=
  match seekSequence lines chunk.oldLines lineIndex chunk.isEndOfFile mode with
  | some start => some (start, chunk.oldLines, chunk.newLines)
  | none =>
    if chunk.oldLines.getLast? = some [] then
      let cut := withoutFinalLine chunk
      (seekSequence lines cut.1 lineIndex chunk.isEndOfFile mode).map fun start =>
        (start, cut.1, cut.2)
    else none

/-- The place behind the line of context of a chunk. -/
def contextIndex (lines : List Text) (path : Text) (chunk : UpdateFileChunk) (lineIndex : ℕ)
    (mode : ApplyPatchFileUpdateMode) : Except String ℕ :=
  match chunk.changeContext with
  | none => .ok lineIndex
  | some context =>
    match seekSequence lines [context] lineIndex false mode with
    | some index => .ok (index + 1)
    | none =>
      .error ("Failed to find context '" ++ String.ofList context ++ "' in " ++ String.ofList path)

/-- Where lines are inserted that replace none. -/
def insertionIndex (lines : List Text) : ApplyPatchFileUpdateMode → ℕ
  | .normalizeToLf => if lines.getLast? = some [] then lines.length - 1 else lines.length
  | .preserveLineEndings => lines.length

/-- The replacements of one chunk, and the place behind it. -/
def chunkReplacements (lines : List Text) (path : Text) (mode : ApplyPatchFileUpdateMode)
    (chunk : UpdateFileChunk) (lineIndex : ℕ) : Except String (List Replacement × ℕ) := do
  let lineIndex ← contextIndex lines path chunk lineIndex mode
  if chunk.oldLines = [] then
    return ([⟨insertionIndex lines mode, 0, chunk.newLines⟩], lineIndex)
  else
    match locateChunk lines chunk lineIndex mode with
    | some (start, pattern, newSlice) =>
      let replacements :=
        match mode with
        | .normalizeToLf => [⟨start, pattern.length, newSlice⟩]
        | .preserveLineEndings =>
          contextReplacements start pattern.length newSlice 0 0 chunk.contextLineIndices
      return (replacements, start + pattern.length)
    | none =>
      .error ("Failed to find expected lines in " ++ String.ofList path ++ ":\n" ++
        String.ofList (joinLines chunk.oldLines))

/-- The loop of `compute_replacements` over the chunks. -/
def replacementsFrom (lines : List Text) (path : Text) (mode : ApplyPatchFileUpdateMode)
    (lineIndex : ℕ) : List UpdateFileChunk → Except String (List Replacement)
  | [] => .ok []
  | chunk :: rest => do
    let (replacements, lineIndex) ← chunkReplacements lines path mode chunk lineIndex
    let more ← replacementsFrom lines path mode lineIndex rest
    return replacements ++ more

/-- `compute_replacements`. -/
def computeReplacements (lines : List Text) (path : Text) (chunks : List UpdateFileChunk)
    (mode : ApplyPatchFileUpdateMode) : Except String (List Replacement) :=
  (replacementsFrom lines path mode 0 chunks).map fun replacements =>
    replacements.insertionSort fun a b => a.start ≤ b.start

/-- `apply_replacements`, from the last one to the first. -/
def applyReplacements (lines : List Text) (replacements : List Replacement) : List Text :=
  replacements.foldr
    (fun r lines => lines.take r.start ++ r.newLines ++ lines.drop (r.start + r.oldLen)) lines

/-! ### Files with their line endings -/

/-- `LineEnding`. -/
inductive LineEnding where
  | lf
  | crLf
  | cr
  deriving Repr, DecidableEq

/-- `LineEnding::as_str`. -/
def LineEnding.text : LineEnding → Text
  | .lf => ['\n']
  | .crLf => ['\r', '\n']
  | .cr => ['\r']

/-- `SourceLine`. -/
structure SourceLine where
  text : Text
  ending : Option LineEnding
  deriving Repr, DecidableEq

/-- `SourceFile`. -/
structure SourceFile where
  lines : List SourceLine
  preferredEnding : LineEnding
  deriving Repr, DecidableEq

namespace SourceFile

/-- The lines of a text, the first of which begins with what has been read of it. -/
def linesFrom (line : Text) : Text → List SourceLine
  | [] => if line = [] then [] else [⟨line, none⟩]
  | '\r' :: '\n' :: rest => ⟨line, some .crLf⟩ :: linesFrom [] rest
  | '\r' :: rest => ⟨line, some .cr⟩ :: linesFrom [] rest
  | '\n' :: rest => ⟨line, some .lf⟩ :: linesFrom [] rest
  | c :: rest => linesFrom (line ++ [c]) rest

/-- `SourceFile::parse`: the first ending is the preferred one. -/
def parse (contents : Text) : SourceFile :=
  let lines := linesFrom [] contents
  ⟨lines, (lines.findSome? (·.ending)).getD .lf⟩

/-- `line_texts`. -/
def lineTexts (file : SourceFile) : List Text := file.lines.map (·.text)

/-- The loop of `apply_replacements` over the lines from a place on. -/
def replaceFrom (preferredEnding : LineEnding) (sourceIndex : ℕ) (lines : List SourceLine) :
    List Replacement → List SourceLine
  | [] => lines
  | r :: rest =>
    let skipped := r.start - sourceIndex
    lines.take skipped ++ r.newLines.map (⟨·, some preferredEnding⟩) ++
      replaceFrom preferredEnding (r.start + r.oldLen) (lines.drop (skipped + r.oldLen)) rest

/-- `SourceFile::apply_replacements`: every line gets an ending. -/
def applyReplacements (file : SourceFile) (replacements : List Replacement) : SourceFile :=
  { file with
    lines := (replaceFrom file.preferredEnding 0 file.lines replacements).map fun line =>
      { line with ending := some (line.ending.getD file.preferredEnding) } }

/-- `into_contents`. -/
def intoContents (file : SourceFile) : Text :=
  file.lines.flatMap fun line => line.text ++ (line.ending.map LineEnding.text).getD []

end SourceFile

/-! ### New contents -/

/-- The lines of a text between its line feeds, without an empty one at the end. -/
def lfLines (contents : Text) : List Text :=
  let lines := splitChar '\n' contents
  if lines.getLast? = some [] then lines.dropLast else lines

/-- The lines with an empty one at their end, which stands for the final line feed. -/
def closeLines (lines : List Text) : List Text :=
  if lines.getLast? = some [] then lines else lines ++ [[]]

/-- The part of `derive_new_contents_from_chunks` behind the reading of the file. -/
def newContents (mode : ApplyPatchFileUpdateMode) (path : Text) (chunks : List UpdateFileChunk)
    (original : Text) : Except String Text :=
  match mode with
  | .normalizeToLf =>
    (computeReplacements (lfLines original) path chunks mode).map fun replacements =>
      joinLines (closeLines (applyReplacements (lfLines original) replacements))
  | .preserveLineEndings =>
    let file := SourceFile.parse original
    (computeReplacements file.lineTexts path chunks mode).map fun replacements =>
      (file.applyReplacements replacements).intoContents

end Rivloom.ApplyPatch
