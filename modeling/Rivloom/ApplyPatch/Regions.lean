import Rivloom.ApplyPatch.FileUpdate
import Rivloom.Lib.Action
import Rivloom.Lib.Splice

/-!
# Where the chunks of an update go

In the mode that writes a file back with line feeds, each chunk of an update takes one region of the
file: the lines that were found for its old lines, or, if it has none, the place at the end of the
file where its new lines are inserted.

The search for a chunk goes on behind the chunk before it, so the regions follow each other in the
order of the chunks – with two exceptions. Lines that replace none are inserted at the end of the
file, before a blank line that stands there, wherever the chunk comes in the list; the replacements
are sorted for that reason. And a chunk that is marked as the end of the file is looked for at the
end of the file only, even if the search has already come farther than that. As long as no region
gets in the way of another (`Rivloom.ApplyPatch.Clear`), the new lines are the old ones with each
region replaced (`Rivloom.ApplyPatch.regions_spec`).
-/

namespace Rivloom.ApplyPatch

variable {lines : List Text} {chunk : UpdateFileChunk} {mode : ApplyPatchFileUpdateMode}
  {chunks : List UpdateFileChunk} {regions : List Replacement} {path : Text} {lineIndex next : ℕ}

/-! ### Where lines are found -/

/-- The lines of a pattern stand at a place, in one of the readings. -/
def Matches (lines pattern : List Text) (place : ℕ) : Prop :=
  ∃ reading ∈ lineReadings,
    ((lines.drop place).take pattern.length).map reading = pattern.map reading

theorem matches_nil (lines : List Text) (place : ℕ) : Matches lines [] place :=
  ⟨id, List.mem_cons_self, by rw [List.length_nil, List.take_zero]⟩

theorem seekReading_eq_some {reading : Text → Text} {lines pattern : List Text} {searchStart i : ℕ}
    (h : seekReading reading lines pattern searchStart = some i) :
    searchStart ≤ i ∧ i ≤ lines.length - pattern.length ∧
      ((lines.drop i).take pattern.length).map reading = pattern.map reading := by
  rw [seekReading] at h
  have hmem := List.mem_range'_1.mp (List.mem_of_find?_eq_some h)
  have hmatch := List.find?_some h
  rw [decide_eq_true_eq] at hmatch
  exact ⟨hmem.1, by omega, hmatch⟩

/-- **What the search for a pattern finds**, from a place in the file on. -/
structure Found (lines pattern : List Text) (start : ℕ) (eof : Bool)
    (mode : ApplyPatchFileUpdateMode) (place : ℕ) : Prop where
  matches_ : Matches lines pattern place
  inside : place + pattern.length ≤ lines.length
  behind : eof = false ∨ mode = .preserveLineEndings → start ≤ place
  /-- The search never goes back. -/
  advances : start ≤ place + pattern.length

theorem found_of_seekSequence {lines pattern : List Text} {start : ℕ} {eof : Bool} {place : ℕ}
    (hstart : start ≤ lines.length) (h : seekSequence lines pattern start eof mode = some place) :
    Found lines pattern start eof mode place := by
  rw [seekSequence] at h
  split at h
  · next hnil =>
    obtain rfl := Option.some.inj h
    subst hnil
    exact ⟨matches_nil lines start, hstart, fun _ => le_refl _, le_refl _⟩
  split at h
  · exact nomatch h
  next hlength =>
  obtain ⟨reading, hreading, hseek⟩ := List.exists_of_findSome?_eq_some h
  obtain ⟨hfrom, hto, hmatch⟩ := seekReading_eq_some hseek
  refine ⟨⟨reading, hreading, hmatch⟩, by omega, fun hmode => ?_, ?_⟩
  · cases eof with
    | false => exact hfrom
    | true =>
      cases mode with
      | normalizeToLf => rcases hmode with h | h <;> exact nomatch h
      | preserveLineEndings => exact (Nat.le_max_right _ _).trans hfrom
  · cases eof with
    | false => exact hfrom.trans (Nat.le_add_right _ _)
    | true =>
      cases mode with
      | normalizeToLf =>
        -- at the end of the file, nothing is behind what was found
        have hend : lines.length - pattern.length ≤ place := hfrom
        omega
      | preserveLineEndings =>
        exact ((Nat.le_max_right _ _).trans hfrom).trans (Nat.le_add_right _ _)

/-- The old and the new lines that are used of a chunk: all of them, or those without a final empty
line. -/
def Used (chunk : UpdateFileChunk) (pattern newSlice : List Text) : Prop :=
  (pattern, newSlice) = (chunk.oldLines, chunk.newLines) ∨
    chunk.oldLines.getLast? = some [] ∧ (pattern, newSlice) = withoutFinalLine chunk

theorem locateChunk_eq_some {lineIndex place : ℕ} {pattern newSlice : List Text}
    (hindex : lineIndex ≤ lines.length)
    (h : locateChunk lines chunk lineIndex mode = some (place, pattern, newSlice)) :
    Used chunk pattern newSlice ∧
      Found lines pattern lineIndex chunk.isEndOfFile mode place := by
  rw [locateChunk] at h
  split at h
  · next start hseek =>
    obtain ⟨rfl, hwhole⟩ := Prod.mk.inj (Option.some.inj h)
    obtain ⟨rfl, rfl⟩ := Prod.mk.inj hwhole
    exact ⟨Or.inl rfl, found_of_seekSequence hindex hseek⟩
  split at h
  · next hlast =>
    obtain ⟨start, hseek, hfound⟩ := Option.map_eq_some_iff.mp h
    obtain ⟨rfl, hcut⟩ := Prod.mk.inj hfound
    obtain ⟨rfl, rfl⟩ := Prod.mk.inj hcut
    exact ⟨Or.inr ⟨hlast, rfl⟩, found_of_seekSequence hindex hseek⟩
  · exact nomatch h

theorem contextIndex_eq_ok (hindex : lineIndex ≤ lines.length)
    (h : contextIndex lines path chunk lineIndex mode = .ok next) :
    lineIndex ≤ next ∧ next ≤ lines.length := by
  rw [contextIndex] at h
  split at h
  · obtain rfl := Except.ok.inj h
    exact ⟨le_refl _, hindex⟩
  split at h
  · next context hcontext index hseek =>
    obtain rfl := Except.ok.inj h
    have hfound := found_of_seekSequence hindex hseek
    have hbehind := hfound.behind (Or.inl rfl)
    have hinside := hfound.inside
    rw [List.length_singleton] at hinside
    omega
  · exact nomatch h

/-! ### The region of a chunk -/

/-- The place behind what is replaced. -/
def Replacement.stop (r : Replacement) : ℕ := r.start + r.oldLen

/-- **A region serves a chunk**: the lines in it are the old lines of the chunk, as read, and the
new lines are the chunk's, both perhaps without a final empty line; or the chunk has no old lines,
and the region is the place at the end of the file. -/
inductive Serves (lines : List Text) (chunk : UpdateFileChunk) : Replacement → Prop
  | insertion (pure : chunk.oldLines = []) :
    Serves lines chunk ⟨insertionIndex lines .normalizeToLf, 0, chunk.newLines⟩
  | found {place : ℕ} {pattern newSlice : List Text} (old : chunk.oldLines ≠ [])
      (used : Used chunk pattern newSlice) (matches_ : Matches lines pattern place) :
    Serves lines chunk ⟨place, pattern.length, newSlice⟩

theorem insertionIndex_le (lines : List Text) (mode : ApplyPatchFileUpdateMode) :
    insertionIndex lines mode ≤ lines.length := by
  rw [insertionIndex.eq_def]
  split
  · split <;> omega
  · exact le_refl _

/-- **One chunk**: its region serves it and lies in the file, the search goes on behind it, and it
stands behind all that was found before unless it was looked for at the end of the file. -/
theorem chunkReplacements_eq_ok {replacements : List Replacement}
    (hindex : lineIndex ≤ lines.length)
    (h : chunkReplacements lines path .normalizeToLf chunk lineIndex = .ok (replacements, next)) :
    ∃ r, replacements = [r] ∧ Serves lines chunk r ∧ r.stop ≤ lines.length ∧ lineIndex ≤ next ∧
      next ≤ lines.length ∧ (chunk.oldLines ≠ [] → r.stop ≤ next) ∧
      (chunk.oldLines ≠ [] → chunk.isEndOfFile = false → lineIndex ≤ r.start) := by
  rw [chunkReplacements, Except.bind_eq_ok] at h
  obtain ⟨index, hcontext, h⟩ := h
  obtain ⟨hle, hindex'⟩ := contextIndex_eq_ok hindex hcontext
  split at h
  · next hpure =>
    obtain ⟨rfl, rfl⟩ := Prod.mk.inj (Except.ok.inj h)
    exact ⟨_, rfl, .insertion hpure, insertionIndex_le lines .normalizeToLf, hle, hindex',
      fun hold => absurd hpure hold, fun hold => absurd hpure hold⟩
  next hold =>
  split at h
  · next place pattern newSlice hlocate =>
    obtain ⟨rfl, rfl⟩ := Prod.mk.inj (Except.ok.inj h)
    obtain ⟨hused, hfound⟩ := locateChunk_eq_some hindex' hlocate
    exact ⟨_, rfl, .found hold hused hfound.matches_, hfound.inside, hle.trans hfound.advances,
      hfound.inside, fun _ => le_refl _, fun _ heof => hle.trans (hfound.behind (Or.inl heof))⟩
  · exact nomatch h

/-! ### The regions of all chunks -/

/-- **The chunks with old lines stand one behind the other**, except for those that were looked for
at the end of the file. -/
def Follows (p q : UpdateFileChunk × Replacement) : Prop :=
  p.1.oldLines ≠ [] → q.1.oldLines ≠ [] → q.1.isEndOfFile = false → p.2.stop ≤ q.2.start

theorem replacementsFrom_eq_ok {lineIndex : ℕ} (hindex : lineIndex ≤ lines.length)
    (h : replacementsFrom lines path .normalizeToLf lineIndex chunks = .ok regions) :
    List.Forall₂ (Serves lines) chunks regions ∧ (∀ r ∈ regions, r.stop ≤ lines.length) ∧
      (∀ p ∈ chunks.zip regions, p.1.oldLines ≠ [] → p.1.isEndOfFile = false →
        lineIndex ≤ p.2.start) ∧
      (chunks.zip regions).Pairwise Follows := by
  induction chunks generalizing lineIndex regions with
  | nil =>
    obtain rfl := Except.ok.inj h
    exact ⟨.nil, nofun, nofun, .nil⟩
  | cons chunk chunks ih =>
    rw [replacementsFrom, Except.bind_eq_ok] at h
    obtain ⟨⟨replacements, next⟩, hchunk, h⟩ := h
    obtain ⟨more, hmore, h⟩ := Except.bind_eq_ok.mp h
    obtain rfl := Except.ok.inj h
    obtain ⟨r, rfl, hserves, hinside, hle, hnext, hstop, hstart⟩ :=
      chunkReplacements_eq_ok hindex hchunk
    obtain ⟨hrest, hall, hbehind, hfollows⟩ := ih hnext hmore
    refine ⟨.cons hserves hrest, ?_, ?_, ?_⟩
    · rintro s hs
      rcases List.mem_cons.mp hs with rfl | hs
      · exact hinside
      · exact hall s hs
    · rintro p hp hold heof
      rcases List.mem_cons.mp hp with rfl | hp
      · exact hstart hold heof
      · exact hle.trans (hbehind p hp hold heof)
    · refine List.pairwise_cons.mpr ⟨fun q hq hold hold' heof => ?_, hfollows⟩
      exact (hstop hold).trans (hbehind q hq hold' heof)

/-- **No region gets in the way of another**: a chunk that was looked for at the end of the file is
not found in lines that belong to a chunk before it, and where lines are inserted, no chunk has
taken the blank line they are inserted before. -/
structure Clear (lines : List Text) (placed : List (UpdateFileChunk × Replacement)) : Prop where
  endOfFile : placed.Pairwise fun p q =>
    p.1.oldLines ≠ [] → q.1.oldLines ≠ [] → q.1.isEndOfFile = true → p.2.stop ≤ q.2.start
  finalBlank : ∀ p ∈ placed, p.1.oldLines = [] → ∀ q ∈ placed, q.1.oldLines ≠ [] →
    q.2.stop ≤ insertionIndex lines .normalizeToLf

theorem Serves.start_of_insertion {r : Replacement} (h : Serves lines chunk r)
    (hpure : chunk.oldLines = []) :
    r.start = insertionIndex lines .normalizeToLf ∧
      r.stop = insertionIndex lines .normalizeToLf := by
  cases h with
  | insertion => exact ⟨rfl, rfl⟩
  | found old => exact absurd hpure old

/-- A replacement as an edit of the lines. -/
def Replacement.edit (r : Replacement) : Splice.Edit Text := ⟨r.start, r.oldLen, r.newLines⟩

theorem applyReplacements_eq (lines : List Text) (replacements : List Replacement) :
    applyReplacements lines replacements =
      Splice.applyBack lines (replacements.map Replacement.edit) := by
  rw [applyReplacements, Splice.applyBack, List.foldr_map]
  rfl

theorem Serves.of_mem_zip (h : List.Forall₂ (Serves lines) chunks regions)
    {p : UpdateFileChunk × Replacement} (hp : p ∈ chunks.zip regions) : Serves lines p.1 p.2 :=
  (List.forall₂_iff_zip.mp h).2 hp

/-- **Regions that are clear of each other stand apart.** -/
theorem Clear.apart (hserves : List.Forall₂ (Serves lines) chunks regions)
    (hfollows : (chunks.zip regions).Pairwise Follows) (hclear : Clear lines (chunks.zip regions)) :
    regions.Pairwise (Splice.Apart Replacement.start Replacement.stop) := by
  have hregions : (chunks.zip regions).map Prod.snd = regions :=
    List.map_snd_zip hserves.length_eq.ge
  rw [← hregions, List.pairwise_map]
  refine (hfollows.and hclear.endOfFile).imp_of_mem ?_
  rintro p q hp hq ⟨hfollow, hend⟩
  have hserve := Serves.of_mem_zip hserves hp
  have hserve' := Serves.of_mem_zip hserves hq
  by_cases hpure : p.1.oldLines = []
  · obtain ⟨hstart, hstop⟩ := hserve.start_of_insertion hpure
    by_cases hpure' : q.1.oldLines = []
    · obtain ⟨hstart', -⟩ := hserve'.start_of_insertion hpure'
      exact Or.inl (hstop.trans hstart'.symm).le
    · -- the region of a later chunk ends before what is inserted
      have hbefore := hclear.finalBlank p hp hpure q hq hpure'
      have hle : q.2.start ≤ q.2.stop := Nat.le_add_right _ _
      rcases Nat.lt_or_ge q.2.start p.2.start with hlt | hge
      · exact Or.inr ⟨hlt, hstart ▸ hbefore⟩
      · exact Or.inl (hstop.trans_le (hstart.symm.trans_le hge))
  · by_cases hpure' : q.1.oldLines = []
    · obtain ⟨hstart', -⟩ := hserve'.start_of_insertion hpure'
      exact Or.inl ((hclear.finalBlank q hq hpure' p hp hpure).trans hstart'.ge)
    · cases heof : q.1.isEndOfFile with
      | false => exact Or.inl (hfollow hpure hpure' heof)
      | true => exact Or.inl (hend hpure hpure' heof)

/-- **The regions of an update.** There is one for each chunk, which serves the chunk and lies in
the file, and those of chunks with old lines follow each other unless a chunk was looked for at the
end of the file. If they are clear of each other, they stand apart, and the new lines are the old
ones with each region replaced, from the first to the last. -/
theorem regions_spec {path original text : Text} {chunks : List UpdateFileChunk}
    (h : newContents .normalizeToLf path chunks original = .ok text) :
    ∃ regions, replacementsFrom (lfLines original) path .normalizeToLf 0 chunks = .ok regions ∧
      List.Forall₂ (Serves (lfLines original)) chunks regions ∧
      (∀ r ∈ regions, r.stop ≤ (lfLines original).length) ∧
      (chunks.zip regions).Pairwise Follows ∧
      (Clear (lfLines original) (chunks.zip regions) →
        regions.Pairwise (Splice.Apart Replacement.start Replacement.stop) ∧
        ∃ sorted : List Replacement, sorted.Perm regions ∧
          Splice.Ordered (lfLines original).length (sorted.map Replacement.edit) ∧
          text = joinLines (closeLines
            (Splice.splice 0 (lfLines original) (sorted.map Replacement.edit)))) := by
  obtain ⟨sorted, hcompute, htext⟩ := Except.map_eq_ok.mp h
  obtain ⟨regions, hregions, rfl⟩ := Except.map_eq_ok.mp hcompute
  obtain ⟨hserves, hinside, -, hfollows⟩ := replacementsFrom_eq_ok (Nat.zero_le _) hregions
  refine ⟨regions, hregions, hserves, hinside, hfollows, fun hclear => ?_⟩
  have hapart := hclear.apart hserves hfollows
  have hordered : Splice.Ordered (lfLines original).length
      ((regions.insertionSort fun a b => a.start ≤ b.start).map Replacement.edit) :=
    Splice.ordered_insertionSort Replacement.edit hapart hinside
  refine ⟨hapart, regions.insertionSort fun a b => a.start ≤ b.start,
    List.perm_insertionSort _ regions, hordered, ?_⟩
  rw [← htext, ← Splice.applyBack_eq_splice hordered, ← applyReplacements_eq]

/-! ### Regions that are not in the order of their chunks -/

/-- A chunk without a line of context before it. -/
def plainChunk (oldLines newLines : List String) (contextLineIndices : List (ℕ × ℕ))
    (isEndOfFile : Bool) : UpdateFileChunk :=
  ⟨none, oldLines.map String.toList, newLines.map String.toList, contextLineIndices, isEndOfFile⟩

/-- Two lines are added, and then others are replaced that stand before. -/
def additionFirst : List UpdateFileChunk :=
  [plainChunk [] ["after-context", "second-line"] [] false,
    plainChunk ["line1", "line2", "line3"] ["line1", "line2-replacement"] [(0, 0)] false]

/-- The regions stand apart, though not in the order of the chunks. -/
theorem regions_additionFirst :
    ∃ sorted : List Replacement,
      Splice.Ordered 3 (sorted.map Replacement.edit) ∧
        "line1\nline2-replacement\nafter-context\nsecond-line\n".toList =
          joinLines (closeLines (Splice.splice 0 (lfLines "line1\nline2\nline3\n".toList)
            (sorted.map Replacement.edit))) := by
  have hnew : newContents .normalizeToLf [] additionFirst "line1\nline2\nline3\n".toList =
      .ok "line1\nline2-replacement\nafter-context\nsecond-line\n".toList := by decide +kernel
  obtain ⟨regions, hregions, -, -, -, hclear⟩ := regions_spec hnew
  have hfound : replacementsFrom (lfLines "line1\nline2\nline3\n".toList) [] .normalizeToLf 0
      additionFirst = .ok [⟨3, 0, ["after-context".toList, "second-line".toList]⟩,
        ⟨0, 3, ["line1".toList, "line2-replacement".toList]⟩] := by decide +kernel
  obtain rfl := Except.ok.inj (hregions.symm.trans hfound)
  have hlines : lfLines "line1\nline2\nline3\n".toList =
      ["line1".toList, "line2".toList, "line3".toList] := by decide +kernel
  obtain ⟨-, sorted, -, hordered, htext⟩ := hclear ⟨by decide +kernel, by decide +kernel⟩
  rw [hlines] at hordered
  exact ⟨sorted, hordered, htext⟩

/-- **Regions out of order, and regions in each other's way.** Added lines stand behind the lines
that a later chunk replaces. A chunk that is looked for at the end of the file is found in lines
that the chunk before it has taken, and its new line is lost. A line that is inserted before a final
blank line is lost if the blank line has been taken. And a final blank line itself is taken for the
last line feed. -/
theorem regions_collide :
    (replacementsFrom (lfLines "line1\nline2\nline3\n".toList) [] .normalizeToLf 0 additionFirst =
        .ok [⟨3, 0, ["after-context".toList, "second-line".toList]⟩,
          ⟨0, 3, ["line1".toList, "line2-replacement".toList]⟩]) ∧
      (replacementsFrom (lfLines "a\nb\n".toList) [] .normalizeToLf 0
          [plainChunk ["a", "b"] ["x"] [] false, plainChunk ["b"] ["y"] [] true] =
          .ok [⟨0, 2, ["x".toList]⟩, ⟨1, 1, ["y".toList]⟩] ∧
        newContents .normalizeToLf []
          [plainChunk ["a", "b"] ["x"] [] false, plainChunk ["b"] ["y"] [] true] "a\nb\n".toList =
          .ok "x\n".toList) ∧
      (replacementsFrom (lfLines "a\n\n".toList) [] .normalizeToLf 0
          [plainChunk ["a", ""] ["b"] [] false, plainChunk [] ["c"] [] false] =
          .ok [⟨0, 2, ["b".toList]⟩, ⟨1, 0, ["c".toList]⟩] ∧
        newContents .normalizeToLf []
          [plainChunk ["a", ""] ["b"] [] false, plainChunk [] ["c"] [] false] "a\n\n".toList =
          .ok "b\n".toList) ∧
      newContents .normalizeToLf [] [plainChunk ["a"] ["b"] [] false] "a\n\n".toList =
        .ok "b\n".toList := by
  decide +kernel

end Rivloom.ApplyPatch
