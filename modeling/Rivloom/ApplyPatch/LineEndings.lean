import Rivloom.ApplyPatch.Hunks
import Rivloom.ApplyPatch.Regions

/-!
# Line endings survive

The mode that keeps line endings leaves the context lines of a chunk alone. A chunk whose old lines
were found in the file is cut at its context lines, and each piece between two of them becomes a
replacement of its own; what no replacement covers is copied with its own ending
(`Rivloom.ApplyPatch.SourceFile.applyReplacements`).

Where the old lines of a chunk end with an empty line and are not found, they are looked for once
more without it: the empty line stood for the end of the file. The new lines then lose an empty line
at their end, too. It is meant to be the same line; but if the chunk removes the empty line and
keeps another one before it, it is that other one, and a context line of the file is removed with
it. This is the only way in which a line that no chunk removes can get lost
(`Rivloom.ApplyPatch.keeps_lines_iff`).
-/

namespace Rivloom.ApplyPatch

variable {first second : List Replacement}

/-! ### The pieces of a chunk -/

/-- A line is covered by a replacement. -/
def Covered (replacements : List Replacement) (i : ℕ) : Prop :=
  ∃ r ∈ replacements, r.start ≤ i ∧ i < r.stop

theorem covered_append {i : ℕ} :
    Covered (first ++ second) i ↔ Covered first i ∨ Covered second i := by
  simp only [Covered, List.mem_append, or_and_right, exists_or]

theorem covered_singleton {r : Replacement} {i : ℕ} : Covered [r] i ↔ r.start ≤ i ∧ i < r.stop := by
  simp only [Covered, List.mem_singleton, exists_eq_left]

/-- The replacements stand one behind the other, between two places. -/
structure Between (lower upper : ℕ) (replacements : List Replacement) : Prop where
  apart : replacements.Pairwise fun a b => a.stop ≤ b.start
  lower : ∀ r ∈ replacements, lower ≤ r.start
  upper : ∀ r ∈ replacements, r.stop ≤ upper

theorem Between.nil (lower upper : ℕ) : Between lower upper [] := ⟨.nil, nofun, nofun⟩

theorem Between.append {lower middle middle' upper : ℕ} (hfirst : Between lower middle first)
    (hsecond : Between middle' upper second) (hlower : lower ≤ middle) (hmiddle : middle ≤ middle')
    (hupper : middle' ≤ upper) : Between lower upper (first ++ second) := by
  refine ⟨List.pairwise_append.mpr ⟨hfirst.apart, hsecond.apart, fun a ha b hb => ?_⟩,
    fun r hr => ?_, fun r hr => ?_⟩
  · exact ((hfirst.upper a ha).trans hmiddle).trans (hsecond.lower b hb)
  · rcases List.mem_append.mp hr with hr | hr
    · exact hfirst.lower r hr
    · exact (hlower.trans hmiddle).trans (hsecond.lower r hr)
  · rcases List.mem_append.mp hr with hr | hr
    · exact (hfirst.upper r hr).trans (hmiddle.trans hupper)
    · exact hsecond.upper r hr

theorem Between.singleton {lower upper start oldLen : ℕ} (newLines : List Text)
    (hlower : lower ≤ start)
    (hupper : start + oldLen ≤ upper) : Between lower upper [⟨start, oldLen, newLines⟩] := by
  refine ⟨List.pairwise_singleton _ _, fun r hr => ?_, fun r hr => ?_⟩
  · obtain rfl := List.mem_singleton.mp hr
    exact hlower
  · obtain rfl := List.mem_singleton.mp hr
    exact hupper

section Pieces

variable {startIdx patternLen : ℕ} {newSlice : List Text}

variable (startIdx newSlice) in
theorem lastReplacement_spec {oldStart : ℕ} (newStart : ℕ) (h : oldStart ≤ patternLen) :
    Between (startIdx + oldStart) (startIdx + patternLen)
        (lastReplacement startIdx patternLen newSlice oldStart newStart) ∧
      ∀ k, Covered (lastReplacement startIdx patternLen newSlice oldStart newStart) (startIdx + k) ↔
        oldStart ≤ k ∧ k < patternLen := by
  rw [lastReplacement]
  split
  · next hnone =>
    refine ⟨.nil _ _, fun k => ⟨?_, fun hk => ?_⟩⟩
    · rintro ⟨r, hr, -⟩
      exact nomatch hr
    · omega
  · refine ⟨.singleton _ (le_refl _) (by omega), fun k => ?_⟩
    rw [covered_singleton, Replacement.stop]
    dsimp only
    omega

/-- A piece up to a context line is like the last one of a shorter chunk. -/
theorem contextReplacements_cons {oldStart newStart o n : ℕ} {rest : List (ℕ × ℕ)}
    (ho : o < patternLen) (hn : n < newSlice.length) :
    contextReplacements startIdx patternLen newSlice oldStart newStart ((o, n) :: rest) =
      lastReplacement startIdx o (newSlice.take n) oldStart newStart ++
        contextReplacements startIdx patternLen newSlice (o + 1) (n + 1) rest := by
  have hlength : (newSlice.take n).length = n := by
    rw [List.length_take, Nat.min_eq_left hn.le]
  rw [contextReplacements, if_neg (by omega), lastReplacement, hlength]

/-- **The pieces of a chunk** stand one behind the other, and they cover what the chunk was found
for, except for its context lines – those of them that are left on both sides. -/
theorem contextReplacements_spec {oldStart newStart : ℕ} {contexts : List (ℕ × ℕ)}
    (hincreasing : contexts.Pairwise Below)
    (hlower : ∀ c ∈ contexts, oldStart ≤ c.1 ∧ newStart ≤ c.2) (h : oldStart ≤ patternLen) :
    Between (startIdx + oldStart) (startIdx + patternLen)
        (contextReplacements startIdx patternLen newSlice oldStart newStart contexts) ∧
      ∀ k, Covered (contextReplacements startIdx patternLen newSlice oldStart newStart contexts)
          (startIdx + k) ↔
        (oldStart ≤ k ∧ k < patternLen) ∧
          ∀ c ∈ contexts, c.1 < patternLen → c.2 < newSlice.length → k ≠ c.1 := by
  induction contexts generalizing oldStart newStart with
  | nil =>
    obtain ⟨hbetween, hcovered⟩ := lastReplacement_spec startIdx newSlice newStart h
    exact ⟨hbetween, fun k => (hcovered k).trans ⟨fun hk => ⟨hk, nofun⟩, fun hk => hk.1⟩⟩
  | cons c rest ih =>
    obtain ⟨o, n⟩ := c
    obtain ⟨hfirst, hrest⟩ := List.pairwise_cons.mp hincreasing
    obtain ⟨ho, hn⟩ : oldStart ≤ o ∧ newStart ≤ n := hlower (o, n) List.mem_cons_self
    by_cases hcut : patternLen ≤ o ∨ newSlice.length ≤ n
    · -- neither this context line nor a later one is left on both sides
      rw [contextReplacements, if_pos hcut]
      obtain ⟨hbetween, hcovered⟩ := lastReplacement_spec startIdx newSlice newStart h
      refine ⟨hbetween, fun k => (hcovered k).trans ⟨fun hk => ⟨hk, ?_⟩, fun hk => hk.1⟩⟩
      intro c hc hold hnew
      rcases List.mem_cons.mp hc with rfl | hc
      · dsimp only at hold hnew
        omega
      · obtain ⟨hbelow, hbelow'⟩ : o < c.1 ∧ n < c.2 := hfirst c hc
        omega
    · rw [not_or, Nat.not_le, Nat.not_le] at hcut
      obtain ⟨hbetween, hcovered⟩ := ih hrest (fun c hc => hfirst c hc) hcut.1
      obtain ⟨hpiece, hpiece'⟩ := lastReplacement_spec startIdx (newSlice.take n) newStart ho
      rw [contextReplacements_cons hcut.1 hcut.2]
      refine ⟨hpiece.append hbetween (by omega) (by omega) (by omega), fun k => ?_⟩
      rw [covered_append, hpiece', hcovered, List.forall_mem_cons]
      constructor
      · rintro (hk | ⟨hk, hothers⟩)
        · refine ⟨by omega, fun _ _ => by dsimp only; omega, fun c hc _ _ => ?_⟩
          have hbelow : o < c.1 := (hfirst c hc).1
          omega
        · exact ⟨by omega, fun _ _ => by dsimp only; omega, hothers⟩
      · rintro ⟨hk, hself, hothers⟩
        have hne : k ≠ o := hself hcut.1 hcut.2
        rcases Nat.lt_or_gt_of_ne hne with hlt | hgt
        · exact Or.inl ⟨hk.1, hlt⟩
        · exact Or.inr ⟨⟨hgt, hk.2⟩, hothers⟩

end Pieces

/-! ### The lines that a chunk removes -/

/-- The place where the search goes on behind a chunk. -/
def nextIndex (lines : List Text) (chunk : UpdateFileChunk) (lineIndex : ℕ) : ℕ :=
  if chunk.oldLines = [] then lineIndex
  else
    match locateChunk lines chunk lineIndex .preserveLineEndings with
    | some (start, pattern, _) => start + pattern.length
    | none => lineIndex

/-- **The chunks with the places from which on they are looked for**, as far as the search gets. -/
def visits (lines : List Text) (path : Text) (lineIndex : ℕ) :
    List UpdateFileChunk → List (UpdateFileChunk × ℕ)
  | [] => []
  | chunk :: rest =>
    match contextIndex lines path chunk lineIndex .preserveLineEndings with
    | .ok index => (chunk, index) :: visits lines path (nextIndex lines chunk index) rest
    | .error _ => []

/-- **A chunk removes a line**: the line was found for one of its old lines that is no context
line. -/
def Removes (lines : List Text) (visit : UpdateFileChunk × ℕ) (i : ℕ) : Prop :=
  ∃ start pattern newSlice, visit.1.oldLines ≠ [] ∧
    locateChunk lines visit.1 visit.2 .preserveLineEndings = some (start, pattern, newSlice) ∧
    ∃ k < pattern.length, i = start + k ∧ ∀ c ∈ visit.1.contextLineIndices, c.1 ≠ k

/-- **A chunk removes a blank line at its end, and keeps one before it**: its old and its new lines
end with an empty line, and the last one of the new lines is a context line, but the last one of the
old lines is not. -/
def UpdateFileChunk.RemovesFinalBlank (chunk : UpdateFileChunk) : Prop :=
  chunk.oldLines.getLast? = some [] ∧ chunk.newLines.getLast? = some [] ∧
    ∃ c ∈ chunk.contextLineIndices,
      c.2 + 1 = chunk.newLines.length ∧ c.1 + 1 < chunk.oldLines.length

/-- **The blank line is there**: a chunk that removes a blank line at its end is found with it. -/
def FoundWhole (lines : List Text) (visit : UpdateFileChunk × ℕ) : Prop :=
  visit.1.RemovesFinalBlank →
    seekSequence lines visit.1.oldLines visit.2 visit.1.isEndOfFile .preserveLineEndings ≠ none

section Chunk

variable {lines : List Text} {visit : UpdateFileChunk × ℕ} {start : ℕ}
    {pattern newSlice : List Text} {chunk : UpdateFileChunk}

/-- The context lines that a chunk was found for are left on both sides exactly if the chunk was
found as a whole where that matters. -/
theorem contexts_left_iff (hindexed : visit.1.Indexed) (hold : visit.1.oldLines ≠ [])
    (h : locateChunk lines visit.1 visit.2 .preserveLineEndings = some (start, pattern, newSlice)) :
    (∀ c ∈ visit.1.contextLineIndices, c.1 < pattern.length → c.2 < newSlice.length) ↔
      FoundWhole lines visit := by
  rw [locateChunk] at h
  split at h
  · next place hseek =>
    obtain ⟨rfl, hwhole⟩ := Prod.mk.inj (Option.some.inj h)
    obtain ⟨rfl, rfl⟩ := Prod.mk.inj hwhole
    refine iff_of_true (fun c hc _ => hindexed.new c hc) fun _ => ?_
    rw [hseek]
    exact Option.some_ne_none _
  next hnone =>
  split at h
  · next hlast =>
    obtain ⟨place, -, hfound⟩ := Option.map_eq_some_iff.mp h
    obtain ⟨rfl, hcut⟩ := Prod.mk.inj hfound
    obtain ⟨rfl, rfl⟩ := Prod.mk.inj hcut
    have hwhole : FoundWhole lines visit ↔ ¬ visit.1.RemovesFinalBlank := by
      rw [FoundWhole, hnone]
      exact ⟨fun hall hblank => hall hblank rfl, fun hnot hblank => absurd hblank hnot⟩
    have hpos := List.length_pos_iff.mpr hold
    rw [hwhole, withoutFinalLine]
    dsimp only
    rw [List.length_dropLast]
    by_cases hnew : visit.1.newLines.getLast? = some []
    · rw [if_pos hnew, List.length_dropLast]
      constructor
      · rintro hall ⟨-, -, c, hc, hlast', hbefore⟩
        have := hall c hc (by omega)
        omega
      · intro hnot c hc hbefore
        by_contra hge
        have hlt := hindexed.new c hc
        exact hnot ⟨hlast, hnew, c, hc, by omega, by omega⟩
    · rw [if_neg hnew]
      exact iff_of_true (fun c hc _ => hindexed.new c hc) fun hblank => hnew hblank.2.1
  · cases h

theorem UpdateFileChunk.Indexed.eq_of_old (h : chunk.Indexed) {c c' : ℕ × ℕ}
    (hc : c ∈ chunk.contextLineIndices) (hc' : c' ∈ chunk.contextLineIndices) (heq : c.1 = c'.1) :
    c = c' := by
  have hnodup : (chunk.contextLineIndices.map Prod.fst).Nodup := by
    refine List.pairwise_map.mpr (h.increasing.imp ?_)
    rintro a b ⟨hlt, -⟩
    exact hlt.ne
  exact List.inj_on_of_nodup_map hnodup hc hc' heq

theorem between_pieces (hindexed : chunk.Indexed) (start : ℕ) (pattern newSlice : List Text) :
    Between start (start + pattern.length)
      (contextReplacements start pattern.length newSlice 0 0 chunk.contextLineIndices) :=
  (contextReplacements_spec hindexed.increasing (fun _ _ => ⟨Nat.zero_le _, Nat.zero_le _⟩)
    (Nat.zero_le _)).1

variable (visit) in
/-- **The pieces of a chunk cover only what it removes, exactly if it was found as a whole where
that matters.** -/
theorem pieces_removed_iff (hindexed : visit.1.Indexed) (hold : visit.1.oldLines ≠ [])
    (h : locateChunk lines visit.1 visit.2 .preserveLineEndings = some (start, pattern, newSlice)) :
    (∀ i, Covered (contextReplacements start pattern.length newSlice 0 0
        visit.1.contextLineIndices) i → Removes lines visit i) ↔ FoundWhole lines visit := by
  have hcovered : ∀ k, Covered (contextReplacements start pattern.length newSlice 0 0
      visit.1.contextLineIndices) (start + k) ↔ (0 ≤ k ∧ k < pattern.length) ∧
        ∀ c ∈ visit.1.contextLineIndices, c.1 < pattern.length → c.2 < newSlice.length → k ≠ c.1 :=
    (contextReplacements_spec hindexed.increasing (fun _ _ => ⟨Nat.zero_le _, Nat.zero_le _⟩)
      (Nat.zero_le _)).2
  rw [← contexts_left_iff hindexed hold h]
  constructor
  · intro hall c hc hlt
    by_contra hcut
    -- a context line that is not left on both sides is covered
    have hcover := (hcovered c.1).mpr ⟨⟨Nat.zero_le _, hlt⟩, fun c' hc' _ hlt' heq => by
      rw [hindexed.eq_of_old hc hc' heq] at hcut
      exact hcut hlt'⟩
    obtain ⟨start', pattern', newSlice', -, hlocate, k, -, hi, hcontext⟩ := hall _ hcover
    obtain ⟨rfl, -⟩ := Prod.mk.inj (Option.some.inj (h.symm.trans hlocate))
    exact hcontext c hc (Nat.add_left_cancel hi)
  · rintro hleft i ⟨r, hr, hfrom, hto⟩
    obtain ⟨k, rfl⟩ := Nat.exists_eq_add_of_le
      (((between_pieces hindexed _ _ _).lower r hr).trans hfrom)
    obtain ⟨⟨-, hlt⟩, hothers⟩ := (hcovered k).mp ⟨r, hr, hfrom, hto⟩
    refine ⟨start, pattern, newSlice, hold, h, k, hlt, rfl, fun c hc heq => ?_⟩
    subst heq
    exact hothers c hc hlt (hleft c hc hlt) rfl

end Chunk

/-! ### All chunks -/

section Chunks

variable {lines : List Text} {path : Text} {lineIndex next : ℕ} {chunk : UpdateFileChunk}
  {chunks : List UpdateFileChunk} {replacements : List Replacement} {visit : UpdateFileChunk × ℕ}

/-- **One chunk**: it is looked for behind its line of context, and then either it has no old lines,
and its new ones are added at the end of the file, or its pieces lie in what it was found for. -/
inductive ChunkPieces (lines : List Text) (chunk : UpdateFileChunk) (index : ℕ) :
    List Replacement → ℕ → Prop
  | added (pure : chunk.oldLines = []) :
    ChunkPieces lines chunk index [⟨lines.length, 0, chunk.newLines⟩] index
  | found {start : ℕ} {pattern newSlice : List Text} (old : chunk.oldLines ≠ [])
      (located : locateChunk lines chunk index .preserveLineEndings =
        some (start, pattern, newSlice))
      (behind : index ≤ start) (inside : start + pattern.length ≤ lines.length) :
    ChunkPieces lines chunk index
      (contextReplacements start pattern.length newSlice 0 0 chunk.contextLineIndices)
      (start + pattern.length)

theorem chunkPieces_of_ok (hindex : lineIndex ≤ lines.length)
    (h : chunkReplacements lines path .preserveLineEndings chunk lineIndex =
      .ok (replacements, next)) :
    ∃ index, contextIndex lines path chunk lineIndex .preserveLineEndings = .ok index ∧
      lineIndex ≤ index ∧ index ≤ lines.length ∧ nextIndex lines chunk index = next ∧
      ChunkPieces lines chunk index replacements next := by
  rw [chunkReplacements, Except.bind_eq_ok] at h
  obtain ⟨index, hcontext, h⟩ := h
  obtain ⟨hle, hindex'⟩ := contextIndex_eq_ok hindex hcontext
  refine ⟨index, hcontext, hle, hindex', ?_⟩
  split at h
  · next hpure =>
    obtain ⟨rfl, rfl⟩ := Prod.mk.inj (Except.ok.inj h)
    exact ⟨if_pos hpure, .added hpure⟩
  next hold =>
  split at h
  · next start pattern newSlice hlocate =>
    obtain ⟨rfl, rfl⟩ := Prod.mk.inj (Except.ok.inj h)
    have hfound := (locateChunk_eq_some hindex' hlocate).2
    rw [nextIndex, if_neg hold, hlocate]
    exact ⟨rfl, .found hold hlocate (hfound.behind (Or.inr rfl)) hfound.inside⟩
  · cases h

theorem not_removes_of_pure (hpure : visit.1.oldLines = []) (i : ℕ) : ¬ Removes lines visit i := by
  rintro ⟨-, -, -, hold, -⟩
  exact hold hpure

theorem foundWhole_of_pure (hpure : visit.1.oldLines = []) : FoundWhole lines visit := by
  rintro ⟨hlast, -⟩
  rw [hpure] at hlast
  exact nomatch hlast

theorem not_covered_nothing {n i : ℕ} {newLines : List Text} : ¬ Covered [⟨n, 0, newLines⟩] i := by
  rw [covered_singleton, Replacement.stop]
  dsimp only
  omega

/-- **The replacements of all chunks** lie in the file, behind the place where the search begins,
and they stand apart. -/
theorem preserving_apart (hindex : lineIndex ≤ lines.length)
    (hindexed : ∀ chunk ∈ chunks, chunk.Indexed)
    (h : replacementsFrom lines path .preserveLineEndings lineIndex chunks = .ok replacements) :
    (∀ r ∈ replacements, lineIndex ≤ r.start ∧ r.stop ≤ lines.length) ∧
      replacements.Pairwise (Splice.Apart Replacement.start Replacement.stop) := by
  induction chunks generalizing lineIndex replacements with
  | nil =>
    obtain rfl := Except.ok.inj h
    exact ⟨nofun, .nil⟩
  | cons chunk chunks ih =>
    rw [replacementsFrom, Except.bind_eq_ok] at h
    obtain ⟨⟨pieces, next⟩, hchunk, h⟩ := h
    obtain ⟨more, hmore, h⟩ := Except.bind_eq_ok.mp h
    obtain rfl := Except.ok.inj h
    obtain ⟨index, -, hle, hinside, -, hpieces⟩ := chunkPieces_of_ok hindex hchunk
    have hrest := fun c hc => hindexed c (List.mem_cons_of_mem _ hc)
    cases hpieces with
    | added hpure =>
      obtain ⟨hbounds, hapart⟩ := ih hinside hrest hmore
      refine ⟨fun r hr => ?_, List.pairwise_cons.mpr ⟨fun r hr => ?_, hapart⟩⟩
      · rcases List.mem_cons.mp hr with rfl | hr
        · exact ⟨hindex, le_refl _⟩
        · exact ⟨hle.trans (hbounds r hr).1, (hbounds r hr).2⟩
      · -- what is added stands behind everything
        have hself : r.start ≤ r.stop := Nat.le_add_right _ _
        rcases Nat.lt_or_ge r.start lines.length with hlt | hge
        · exact Or.inr ⟨hlt, (hbounds r hr).2⟩
        · exact Or.inl hge
    | @found start pattern newSlice hold hlocate hbehind hfits =>
      obtain ⟨hbounds, hapart⟩ := ih hfits hrest hmore
      have hbetween := between_pieces (hindexed chunk List.mem_cons_self) start pattern newSlice
      refine ⟨fun r hr => ?_, List.pairwise_append.mpr ⟨hbetween.apart.imp Or.inl, hapart, ?_⟩⟩
      · rcases List.mem_append.mp hr with hr | hr
        · exact ⟨hle.trans (hbehind.trans (hbetween.lower r hr)), (hbetween.upper r hr).trans hfits⟩
        · exact ⟨hle.trans (hbehind.trans ((Nat.le_add_right _ _).trans (hbounds r hr).1)),
            (hbounds r hr).2⟩
      · intro r hr r' hr'
        exact Or.inl ((hbetween.upper r hr).trans (hbounds r' hr').1)

/-- Whatever is removed stands behind the place where the search begins. -/
theorem le_of_removes (hindex : lineIndex ≤ lines.length)
    (h : replacementsFrom lines path .preserveLineEndings lineIndex chunks = .ok replacements)
    (hvisit : visit ∈ visits lines path lineIndex chunks) {i : ℕ} (hremoves : Removes lines visit i)
    : lineIndex ≤ i := by
  induction chunks generalizing lineIndex replacements with
  | nil => exact nomatch hvisit
  | cons chunk chunks ih =>
    rw [replacementsFrom, Except.bind_eq_ok] at h
    obtain ⟨⟨pieces, next⟩, hchunk, h⟩ := h
    obtain ⟨more, hmore, h⟩ := Except.bind_eq_ok.mp h
    obtain ⟨index, hcontext, hle, hinside, hnext, hpieces⟩ := chunkPieces_of_ok hindex hchunk
    rw [visits, hcontext] at hvisit
    dsimp only at hvisit
    rw [hnext] at hvisit
    cases hpieces with
    | added hpure =>
      rcases List.mem_cons.mp hvisit with rfl | hvisit
      · exact absurd hremoves (not_removes_of_pure hpure i)
      · exact hle.trans (ih hinside hmore hvisit)
    | @found start pattern newSlice hold hlocate hbehind hfits =>
      rcases List.mem_cons.mp hvisit with rfl | hvisit
      · obtain ⟨start', pattern', newSlice', -, hlocate', k, -, rfl, -⟩ := hremoves
        obtain ⟨rfl, -⟩ := Prod.mk.inj (Option.some.inj (hlocate.symm.trans hlocate'))
        omega
      · exact hle.trans (hbehind.trans ((Nat.le_add_right _ _).trans (ih hfits hmore hvisit)))

/-- **The replacements of all chunks cover only what some chunk removes, exactly if every chunk was
found as a whole where that matters.** -/
theorem covered_removed_iff (hindex : lineIndex ≤ lines.length)
    (hindexed : ∀ chunk ∈ chunks, chunk.Indexed)
    (h : replacementsFrom lines path .preserveLineEndings lineIndex chunks = .ok replacements) :
    (∀ i, Covered replacements i → ∃ visit ∈ visits lines path lineIndex chunks,
        Removes lines visit i) ↔
      ∀ visit ∈ visits lines path lineIndex chunks, FoundWhole lines visit := by
  induction chunks generalizing lineIndex replacements with
  | nil =>
    obtain rfl := Except.ok.inj h
    refine iff_of_true ?_ nofun
    rintro i ⟨r, hr, -⟩
    exact nomatch hr
  | cons chunk chunks ih =>
    rw [replacementsFrom, Except.bind_eq_ok] at h
    obtain ⟨⟨pieces, next⟩, hchunk, h⟩ := h
    obtain ⟨more, hmore, h⟩ := Except.bind_eq_ok.mp h
    obtain rfl := Except.ok.inj h
    obtain ⟨index, hcontext, hle, hinside, hnext, hpieces⟩ := chunkPieces_of_ok hindex hchunk
    have hrest := fun c hc => hindexed c (List.mem_cons_of_mem _ hc)
    have hvisits : visits lines path lineIndex (chunk :: chunks) =
        (chunk, index) :: visits lines path next chunks := by
      rw [visits, hcontext, ← hnext]
    rw [hvisits, List.forall_mem_cons]
    simp only [covered_append, List.exists_mem_cons_iff]
    cases hpieces with
    | added hpure =>
      have hnothing (i : ℕ) : ¬ Removes lines (chunk, next) i := not_removes_of_pure hpure i
      rw [← ih hinside hrest hmore, and_iff_right (foundWhole_of_pure hpure)]
      refine forall_congr' fun i => ?_
      rw [or_iff_right not_covered_nothing, or_iff_right (hnothing i)]
    | @found start pattern newSlice hold hlocate hbehind hfits =>
      have hself := hindexed chunk List.mem_cons_self
      have hbetween := between_pieces hself start pattern newSlice
      have hbounds := (preserving_apart hfits hrest hmore).1
      have hpieces : (∀ i, Covered (contextReplacements start pattern.length newSlice 0 0
          chunk.contextLineIndices) i → Removes lines (chunk, index) i) ↔
          FoundWhole lines (chunk, index) := pieces_removed_iff (chunk, index) hself hold hlocate
      rw [← ih hfits hrest hmore, ← hpieces]
      constructor
      · -- what the pieces cover lies before everything that later chunks remove, and conversely
        intro hall
        refine ⟨fun i hi => ?_, fun i hi => ?_⟩
        · rcases hall i (Or.inl hi) with hremoves | ⟨visit, hvisit, hremoves⟩
          · exact hremoves
          · obtain ⟨r, hr, -, hto⟩ := hi
            have hlower := le_of_removes hfits hmore hvisit hremoves
            have hupper := hbetween.upper r hr
            omega
        · rcases hall i (Or.inr hi) with hremoves | hremoves
          · obtain ⟨r, hr, hfrom, -⟩ := hi
            obtain ⟨start', pattern', newSlice', -, hlocate', k, hk, rfl, -⟩ := hremoves
            obtain ⟨rfl, hsame⟩ := Prod.mk.inj (Option.some.inj (hlocate.symm.trans hlocate'))
            obtain ⟨rfl, -⟩ := Prod.mk.inj hsame
            have hlower := (hbounds r hr).1
            omega
          · exact hremoves
      · rintro ⟨hfirst, hlater⟩ i (hi | hi)
        · exact Or.inl (hfirst i hi)
        · exact Or.inr (hlater i hi)

end Chunks

/-! ### Files with their line endings -/

/-- A replacement as an edit of the lines of a file: the new lines get the preferred ending. -/
def Replacement.sourceEdit (preferredEnding : LineEnding) (r : Replacement) :
    Splice.Edit SourceLine :=
  ⟨r.start, r.oldLen, r.newLines.map (⟨·, some preferredEnding⟩)⟩

namespace SourceFile

theorem flatMap_linesFrom (line contents : Text) :
    (linesFrom line contents).flatMap (fun line => line.text ++
      (line.ending.map LineEnding.text).getD [])
      = line ++ contents := by
  fun_induction linesFrom line contents with
  | case1 => rfl
  | case2 line =>
    rw [List.flatMap_cons, List.flatMap_nil]
    simp
  | case3 line rest ih =>
    rw [List.flatMap_cons, ih]
    simp [LineEnding.text]
  | case4 line rest _ ih =>
    rw [List.flatMap_cons, ih]
    simp [LineEnding.text]
  | case5 line rest ih =>
    rw [List.flatMap_cons, ih]
    simp [LineEnding.text]
  | case6 line c rest _ _ _ ih =>
    rw [ih, List.append_assoc]
    rfl

/-- **A file is what its lines and their endings make up.** -/
theorem intoContents_parse (contents : Text) : (parse contents).intoContents = contents :=
  flatMap_linesFrom [] contents

/-- What the loop over the replacements makes of the lines, if the replacements stand one behind the
other. -/
theorem replaceFrom_eq_splice {preferredEnding : LineEnding} {sourceIndex : ℕ}
    {lines : List SourceLine} {replacements : List Replacement}
    (hlower : ∀ r ∈ replacements, sourceIndex ≤ r.start)
    (hapart : replacements.Pairwise fun a b => a.stop ≤ b.start) :
    replaceFrom preferredEnding sourceIndex lines replacements =
      Splice.splice sourceIndex lines
          (replacements.map (Replacement.sourceEdit preferredEnding)) := by
  induction replacements generalizing sourceIndex lines with
  | nil => rfl
  | cons r rest ih =>
    obtain ⟨hfirst, hrest⟩ := List.pairwise_cons.mp hapart
    have hstart := hlower r List.mem_cons_self
    have hskip : r.start - sourceIndex + r.oldLen = r.start + r.oldLen - sourceIndex := by omega
    have hmore : replaceFrom preferredEnding (r.start + r.oldLen)
        (lines.drop (r.start - sourceIndex + r.oldLen)) rest = _ := ih hfirst hrest
    rw [replaceFrom, hmore, hskip]
    rfl

end SourceFile

/-- **What is promised of an update that keeps line endings.** The replacements stand one behind the
other and inside the file; the new contents are the lines of the file with each of them made, where
a line of the file keeps its ending, and gets the preferred one if it had none, and an added line
has the preferred one; and what the replacements cover was removed by some chunk. -/
structure KeepsLines (original path : Text) (chunks : List UpdateFileChunk)
    (replacements : List Replacement) : Prop where
  ordered : Splice.Ordered (SourceFile.parse original).lines.length
    (replacements.map (Replacement.sourceEdit (SourceFile.parse original).preferredEnding))
  original_eq : (SourceFile.parse original).intoContents = original
  contents : newContents .preserveLineEndings path chunks original =
    .ok ((Splice.splice 0 (SourceFile.parse original).lines
      (replacements.map (Replacement.sourceEdit
        (SourceFile.parse original).preferredEnding))).flatMap
        fun line => line.text ++
          (line.ending.getD (SourceFile.parse original).preferredEnding).text)
  kept : ∀ i, Covered replacements i →
    ∃ visit ∈ visits (SourceFile.parse original).lineTexts path 0 chunks,
      Removes (SourceFile.parse original).lineTexts visit i

/-- **Line endings survive** in an update with the chunks of a patch, exactly if every chunk that
removes a blank line at its end and keeps one before it is found with this blank line. -/
theorem keeps_lines_iff {text : Text} {args : ApplyPatchArgs} (hparse : parsePatch text = .ok args)
    {name : Text} {movePath : Option Text} {chunks : List UpdateFileChunk}
    (hmem : .updateFile name movePath chunks ∈ args.hunks) {original path : Text}
    {replacements : List Replacement}
    (h : computeReplacements (SourceFile.parse original).lineTexts path chunks
      .preserveLineEndings = .ok replacements) :
    KeepsLines original path chunks replacements ↔
      ∀ visit ∈ visits (SourceFile.parse original).lineTexts path 0 chunks,
        FoundWhole (SourceFile.parse original).lineTexts visit := by
  have hindexed := fun chunk hchunk => (parsed_of_parsePatch hparse hmem chunk hchunk).indexed
  obtain ⟨regions, hregions, rfl⟩ := Except.map_eq_ok.mp h
  have hlength : (SourceFile.parse original).lineTexts.length =
      (SourceFile.parse original).lines.length := List.length_map _
  have hcovered (i : ℕ) : Covered (regions.insertionSort fun a b => a.start ≤ b.start) i ↔
      Covered regions i := by
    simp only [Covered, List.mem_insertionSort]
  have hiff := covered_removed_iff (Nat.zero_le _) hindexed hregions
  obtain ⟨hbounds, hapart⟩ := preserving_apart (Nat.zero_le _) hindexed hregions
  have hordered := Splice.ordered_insertionSort
    (Replacement.sourceEdit (SourceFile.parse original).preferredEnding) hapart
    (fun r hr => hlength ▸ (hbounds r hr).2)
  have hsorted : (regions.insertionSort fun a b => a.start ≤ b.start).Pairwise fun a b =>
      a.stop ≤ b.start := Splice.pairwise_insertionSort (fun r => Nat.le_add_right _ _) hapart
  constructor
  · intro hkeeps
    exact hiff.mp fun i hi => hkeeps.kept i ((hcovered i).mpr hi)
  · intro hwhole
    refine ⟨hordered, SourceFile.intoContents_parse original, ?_,
      fun i hi => hiff.mpr hwhole i ((hcovered i).mp hi)⟩
    have hlines : SourceFile.replaceFrom (SourceFile.parse original).preferredEnding 0
        (SourceFile.parse original).lines
        (regions.insertionSort fun a b => a.start ≤ b.start) = _ :=
      SourceFile.replaceFrom_eq_splice (fun r _ => Nat.zero_le _) hsorted
    rw [newContents, h, ← hlines]
    refine congrArg Except.ok ?_
    change List.flatMap _ (List.map _ _) = _
    rw [List.flatMap_map]
    rfl

/-! ### A blank line at the end -/

/-- A line and a blank line are kept, and the next line and the blank line behind it are removed. -/
def blankLinesPatch : Text :=
  "*** Begin Patch\n*** Update File: f\n@@\n x\n \n-y\n-\n*** End Patch".toList

/-- The chunk of this patch. -/
def blankLinesChunk : UpdateFileChunk :=
  plainChunk ["x", "", "y", ""] ["x", ""] [(0, 0), (1, 1)] false

theorem parsePatch_blankLines :
    parsePatch blankLinesPatch =
      .ok ⟨blankLinesPatch, [.updateFile "f".toList none [blankLinesChunk]], none, none⟩ := by
  decide +kernel

/-- With the blank line at the end, the endings of the lines that are kept survive. -/
theorem keeps_lines_blankLines :
    KeepsLines "x\r\n\r\ny\n\n".toList "f".toList [blankLinesChunk] [⟨2, 2, []⟩] := by
  refine (keeps_lines_iff parsePatch_blankLines List.mem_cons_self (by decide +kernel)).mpr ?_
  have hvisits : visits (SourceFile.parse "x\r\n\r\ny\n\n".toList).lineTexts "f".toList 0
      [blankLinesChunk] = [(blankLinesChunk, 0)] := by decide +kernel
  rw [hvisits]
  intro visit hvisit _
  obtain rfl := List.mem_singleton.mp hvisit
  decide +kernel

/-- **Without the blank line at the end, the other one is lost**: it is a context line of the chunk,
and no chunk removes it, but the new contents are without it. -/
theorem context_line_is_lost :
    (∃ args, parsePatch blankLinesPatch = .ok args ∧
        .updateFile "f".toList none [blankLinesChunk] ∈ args.hunks) ∧
      computeReplacements (SourceFile.parse "x\n\ny\n".toList).lineTexts "f".toList
        [blankLinesChunk] .preserveLineEndings = .ok [⟨1, 2, []⟩] ∧
      newContents .preserveLineEndings "f".toList [blankLinesChunk] "x\n\ny\n".toList =
        .ok "x\n".toList ∧
      Covered [⟨1, 2, []⟩] 1 ∧
      ∀ visit ∈ visits (SourceFile.parse "x\n\ny\n".toList).lineTexts "f".toList 0
        [blankLinesChunk],
        ¬ Removes (SourceFile.parse "x\n\ny\n".toList).lineTexts visit 1 := by
  have hvisits : visits (SourceFile.parse "x\n\ny\n".toList).lineTexts "f".toList 0
      [blankLinesChunk] = [(blankLinesChunk, 0)] := by decide +kernel
  have hlocate : locateChunk (SourceFile.parse "x\n\ny\n".toList).lineTexts blankLinesChunk 0
      .preserveLineEndings = some (0, ["x".toList, [], "y".toList], ["x".toList]) := by
    decide +kernel
  refine ⟨⟨_, parsePatch_blankLines, List.mem_cons_self⟩, by decide +kernel, by decide +kernel,
    ⟨_, List.mem_cons_self, le_refl _, by decide⟩, ?_⟩
  rw [hvisits]
  rintro visit hvisit ⟨start, pattern, newSlice, -, hfound, k, -, hi, hcontext⟩
  obtain rfl := List.mem_singleton.mp hvisit
  obtain ⟨rfl, -⟩ := Prod.mk.inj (Option.some.inj (hlocate.symm.trans hfound))
  exact hcontext (1, 1) (by decide) (hi.trans (Nat.zero_add k))

end Rivloom.ApplyPatch
