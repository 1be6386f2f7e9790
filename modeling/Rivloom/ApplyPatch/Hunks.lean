import Rivloom.ApplyPatch.Parser

/-!
# What a line does to the hunks

A line of a patch leaves the hunks that were read so far alone, except for the last one: it begins a
hunk behind them, adds a line to the file that the last one adds, or is a line of the update that is
the last one (`Rivloom.ApplyPatch.StreamingPatchParser.Advance`). Likewise, a line of an update
leaves its chunks alone except for the last one
(`Rivloom.ApplyPatch.StreamingPatchParser.ChunksAdvance`). What holds of every hunk, or only grows,
follows from these two.

So the chunks of a patch are as they are read (`Rivloom.ApplyPatch.UpdateFileChunk.Parsed`), and
their context lines come in order.
-/

namespace Rivloom.ApplyPatch

variable {chunk : UpdateFileChunk}

/-! ### Chunks that were read from a patch -/

/-- **A chunk as it is read**: line by line, and at its end perhaps the mark for the end of the
file. -/
inductive UpdateFileChunk.Parsed : UpdateFileChunk → Prop
  | empty (changeContext : Option Text) : Parsed (.empty changeContext)
  | context {chunk : UpdateFileChunk} (h : chunk.Parsed) (line : Text) :
    Parsed (chunk.pushContextLine line)
  | added {chunk : UpdateFileChunk} (h : chunk.Parsed) (line : Text) :
    Parsed (chunk.pushNewLine line)
  | removed {chunk : UpdateFileChunk} (h : chunk.Parsed) (line : Text) :
    Parsed (chunk.pushOldLine line)
  | endOfFile {chunk : UpdateFileChunk} (h : chunk.Parsed) :
    Parsed { chunk with isEndOfFile := true }

/-- One context line stands behind another, in the old and in the new lines. -/
def Below (a b : ℕ × ℕ) : Prop := a.1 < b.1 ∧ a.2 < b.2

/-- **The context lines of a chunk**: they come in order, and they are lines of the chunk. -/
structure UpdateFileChunk.Indexed (chunk : UpdateFileChunk) : Prop where
  increasing : chunk.contextLineIndices.Pairwise Below
  old : ∀ c ∈ chunk.contextLineIndices, c.1 < chunk.oldLines.length
  new : ∀ c ∈ chunk.contextLineIndices, c.2 < chunk.newLines.length

theorem UpdateFileChunk.Parsed.indexed (h : chunk.Parsed) : chunk.Indexed := by
  induction h with
  | empty => exact ⟨.nil, nofun, nofun⟩
  | @context chunk _ line ih =>
    have hmem {c : ℕ × ℕ} (hc : c ∈ (chunk.pushContextLine line).contextLineIndices) :
        c ∈ chunk.contextLineIndices ∨ c = (chunk.oldLines.length, chunk.newLines.length) := by
      simpa [pushContextLine] using hc
    refine ⟨?_, fun c hc => ?_, fun c hc => ?_⟩
    · refine List.pairwise_append.mpr ⟨ih.increasing, List.pairwise_singleton _ _, ?_⟩
      intro a ha b hb
      obtain rfl := List.mem_singleton.mp hb
      exact ⟨ih.old a ha, ih.new a ha⟩
    · rw [pushContextLine, List.length_append, List.length_singleton]
      rcases hmem hc with hc | rfl
      · exact (ih.old c hc).trans (Nat.lt_succ_self _)
      · exact Nat.lt_succ_self _
    · rw [pushContextLine, List.length_append, List.length_singleton]
      rcases hmem hc with hc | rfl
      · exact (ih.new c hc).trans (Nat.lt_succ_self _)
      · exact Nat.lt_succ_self _
  | added _ line ih =>
    refine ⟨ih.increasing, ih.old, fun c hc => ?_⟩
    rw [pushNewLine, List.length_append, List.length_singleton]
    exact (ih.new c hc).trans (Nat.lt_succ_self _)
  | removed _ line ih =>
    refine ⟨ih.increasing, fun c hc => ?_, ih.new⟩
    rw [pushOldLine, List.length_append, List.length_singleton]
    exact (ih.old c hc).trans (Nat.lt_succ_self _)
  | endOfFile _ ih => exact ⟨ih.increasing, ih.old, ih.new⟩

/-! ### The chunks of an update -/

namespace StreamingPatchParser

/-- What a line can do to a chunk. -/
inductive ChunkChange : (UpdateFileChunk → UpdateFileChunk) → Prop
  | context (line : Text) : ChunkChange (·.pushContextLine line)
  | added (line : Text) : ChunkChange (·.pushNewLine line)
  | removed (line : Text) : ChunkChange (·.pushOldLine line)
  | endOfFile : ChunkChange fun chunk => { chunk with isEndOfFile := true }

/-- **What a line of an update can do to its chunks.** -/
inductive ChunksAdvance (chunks : List UpdateFileChunk) : List UpdateFileChunk → Prop
  | same : ChunksAdvance chunks chunks
  | opens (changeContext : Option Text) : ChunksAdvance chunks (chunks ++ [.empty changeContext])
  | changes {change : UpdateFileChunk → UpdateFileChunk} (h : ChunkChange change) :
    ChunksAdvance chunks (onLastChunk change chunks)

variable {n : ℕ} {line : Text} {movePath : Option Text} {chunks : List UpdateFileChunk}
  {next : Option Text × List UpdateFileChunk}

theorem chunksAdvance_contentStep (h : contentStep n line movePath chunks = .ok next) :
    ChunksAdvance chunks next.2 := by
  rw [contentStep.eq_def] at h
  split at h
  · obtain rfl := Except.ok.inj h
    exact .changes (.context [])
  · obtain rfl := Except.ok.inj h
    exact .changes (.context _)
  · obtain rfl := Except.ok.inj h
    exact .changes (.added _)
  · obtain rfl := Except.ok.inj h
    exact .changes (.removed _)
  · exact nomatch h

theorem chunksAdvance_updateStep (h : updateStep n line movePath chunks = .ok next) :
    ChunksAdvance chunks next.2 := by
  rw [updateStep] at h
  split_ifs at h
  · obtain rfl := Except.ok.inj h
    exact .same
  · obtain rfl := Except.ok.inj h
    exact .same
  · obtain rfl := Except.ok.inj h
    exact .opens none
  · obtain rfl := Except.ok.inj h
    exact .opens _
  · obtain rfl := Except.ok.inj h
    exact .same
  · obtain rfl := Except.ok.inj h
    exact .changes .endOfFile
  · exact chunksAdvance_contentStep h

theorem ChunkChange.parsed {change : UpdateFileChunk → UpdateFileChunk} (h : ChunkChange change)
    (hchunk : chunk.Parsed) : (change chunk).Parsed := by
  cases h with
  | context line => exact hchunk.context line
  | added line => exact hchunk.added line
  | removed line => exact hchunk.removed line
  | endOfFile => exact hchunk.endOfFile

theorem ChunksAdvance.parsed {chunks' : List UpdateFileChunk} (h : ChunksAdvance chunks chunks')
    (hchunks : ∀ chunk ∈ chunks, chunk.Parsed) : ∀ chunk ∈ chunks', chunk.Parsed := by
  intro chunk hchunk
  cases h with
  | same => exact hchunks chunk hchunk
  | opens changeContext =>
    rcases List.mem_append.mp hchunk with hchunk | hchunk
    · exact hchunks chunk hchunk
    · obtain rfl := List.mem_singleton.mp hchunk
      exact .empty changeContext
  | changes hchange =>
    rw [onLastChunk] at hchunk
    split at hchunk
    · next last hlast =>
      rcases List.mem_append.mp hchunk with hchunk | hchunk
      · exact hchunks chunk ((List.dropLast_sublist _).subset hchunk)
      · obtain rfl := List.mem_singleton.mp hchunk
        exact hchange.parsed (hchunks last (List.mem_of_getLast? hlast))
    · obtain rfl := List.mem_singleton.mp hchunk
      exact hchange.parsed (.empty none)

/-! ### The hunks of a patch -/

/-- A hunk that has just begun. -/
inductive Fresh : Hunk → Prop
  | addFile (path : Text) : Fresh (.addFile path [])
  | deleteFile (path : Text) : Fresh (.deleteFile path)
  | updateFile (path : Text) : Fresh (.updateFile path none [])

/-- **What a line can do to the hunks.** -/
inductive Advance (hunks : List Hunk) : List Hunk → Prop
  | same : Advance hunks hunks
  | begins {hunk : Hunk} (fresh : Fresh hunk) : Advance hunks (hunks ++ [hunk])
  | adds {path contents : Text} (last : hunks.getLast? = some (.addFile path contents))
      (text : Text) :
    Advance hunks (hunks.dropLast ++ [.addFile path (contents ++ text ++ ['\n'])])
  | updates {path : Text} {movePath movePath' : Option Text} {chunks chunks' : List UpdateFileChunk}
      (last : hunks.getLast? = some (.updateFile path movePath chunks))
      (step : ChunksAdvance chunks chunks') :
    Advance hunks (hunks.dropLast ++ [.updateFile path movePath' chunks'])

variable {p q : StreamingPatchParser}

theorem advance_handleHunkHeadersAndEndPatch
    (h : p.handleHunkHeadersAndEndPatch line = .ok (some q)) : Advance p.hunks q.hunks := by
  unfold StreamingPatchParser.handleHunkHeadersAndEndPatch at h
  split_ifs at h
  · obtain ⟨next, hnext, hq⟩ := Except.map_eq_ok.mp h
    simp only [handleEnvironmentId, Except.bind_unit_eq_ok] at hnext
    cases hq
    cases hnext.2.2
    exact .same
  · obtain ⟨-, -, hq⟩ := Except.map_eq_ok.mp h
    cases hq
    exact .same
  · obtain ⟨-, -, hq⟩ := Except.map_eq_ok.mp h
    cases hq
    exact .begins (.addFile _)
  · obtain ⟨-, -, hq⟩ := Except.map_eq_ok.mp h
    cases hq
    exact .begins (.deleteFile _)
  · obtain ⟨-, -, hq⟩ := Except.map_eq_ok.mp h
    cases hq
    exact .begins (.updateFile _)
  · exact nomatch h

theorem advance_processUpdateLine (h : p.processUpdateLine line = .ok q) :
    Advance p.hunks q.hunks := by
  rw [processUpdateLine] at h
  split at h
  · next path movePath chunks hlast =>
    obtain ⟨next, hstep, rfl⟩ := Except.map_eq_ok.mp h
    exact .updates hlast (chunksAdvance_updateStep hstep)
  · exact nomatch h

theorem advance_processAddLine (h : p.processAddLine line = .ok q) : Advance p.hunks q.hunks := by
  rw [processAddLine.eq_def] at h
  split at h
  · next hlast =>
    obtain rfl := Except.ok.inj h
    exact .adds hlast _
  · exact nomatch h

/-- **A line advances the hunks.** -/
theorem advance_processLine (h : p.processLine line = .ok q) : Advance p.hunks q.hunks := by
  rcases processLine_cases h with ⟨hhunks, -⟩ | ⟨_, h⟩ | h | h
  · rw [hhunks]
    exact .same
  · exact advance_handleHunkHeadersAndEndPatch h
  · exact advance_processAddLine h
  · exact advance_processUpdateLine h

/-! ### Chunks are as they are read -/

/-- The chunks of every update are as they are read. -/
def Sound (hunks : List Hunk) : Prop :=
  ∀ path movePath chunks, .updateFile path movePath chunks ∈ hunks → ∀ chunk ∈ chunks, chunk.Parsed

theorem Advance.sound {hunks hunks' : List Hunk} (h : Advance hunks hunks') (hsound : Sound hunks) :
    Sound hunks' := by
  intro path movePath chunks hmem
  cases h with
  | same => exact hsound path movePath chunks hmem
  | begins fresh =>
    rcases List.mem_append.mp hmem with hmem | hmem
    · exact hsound path movePath chunks hmem
    · obtain rfl := List.mem_singleton.mp hmem
      cases fresh with
      | updateFile => nofun
  | adds last text =>
    rcases List.mem_append.mp hmem with hmem | hmem
    · exact hsound path movePath chunks ((List.dropLast_sublist _).subset hmem)
    · exact nomatch List.mem_singleton.mp hmem
  | updates last step =>
    rcases List.mem_append.mp hmem with hmem | hmem
    · exact hsound path movePath chunks ((List.dropLast_sublist _).subset hmem)
    · cases List.mem_singleton.mp hmem
      exact step.parsed (hsound _ _ _ (List.mem_of_getLast? last))

theorem sound_pushDelta {delta : Text} (hsound : Sound p.hunks) (h : p.pushDelta delta = .ok q) :
    Sound q.hunks := by
  induction delta generalizing p with
  | nil =>
    obtain rfl := Except.ok.inj h
    exact hsound
  | cons c delta ih =>
    rw [pushDelta, List.foldlM_cons] at h
    obtain ⟨next, hchar, hrest⟩ := Except.bind_eq_ok.mp h
    refine ih ?_ hrest
    rw [pushChar] at hchar
    split at hchar
    · exact (advance_processLine hchar).sound hsound
    · obtain rfl := Except.ok.inj hchar
      exact hsound

theorem sound_finish (hsound : Sound p.hunks) (h : p.finish = .ok q) : Sound q.hunks := by
  rw [finish] at h
  obtain ⟨last, hlast, hrest⟩ := Except.bind_eq_ok.mp h
  obtain ⟨-, hrest⟩ := Except.bind_unit_eq_ok.mp hrest
  obtain rfl := Except.ok.inj hrest
  rw [finishLine] at hlast
  split_ifs at hlast
  · obtain rfl := Except.ok.inj hlast
    exact hsound
  · obtain ⟨-, -, rfl⟩ := Except.map_eq_ok.mp hlast
    exact hsound
  · exact (advance_processLine hlast).sound hsound

end StreamingPatchParser

/-- **The chunks of a patch are as they are read.** -/
theorem parsed_of_parsePatch {text : Text} {args : ApplyPatchArgs} (h : parsePatch text = .ok args)
    {path : Text} {movePath : Option Text} {chunks : List UpdateFileChunk}
    (hmem : .updateFile path movePath chunks ∈ args.hunks) : ∀ chunk ∈ chunks, chunk.Parsed := by
  rw [parsePatch] at h
  obtain ⟨lines, -, h⟩ := Except.bind_eq_ok.mp h
  obtain ⟨p, hpush, h⟩ := Except.bind_eq_ok.mp h
  obtain ⟨q, hfinish, h⟩ := Except.bind_eq_ok.mp h
  obtain rfl := Except.ok.inj h
  have hinitial : StreamingPatchParser.Sound StreamingPatchParser.initial.hunks := nofun
  exact StreamingPatchParser.sound_finish
    (StreamingPatchParser.sound_pushDelta hinitial hpush) hfinish path movePath chunks hmem

end Rivloom.ApplyPatch
