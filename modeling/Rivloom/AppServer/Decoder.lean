import Rivloom.Lib.Feed
import Rivloom.Lib.JsonParse
import Mathlib.Data.List.Basic
import Mathlib.Data.List.Count
import Mathlib.Data.List.TakeWhile

/-!
# Lines of bytes

The App Server writes one message to a line, and what it writes arrives in pieces of any size
(`wire.rs`). `Rivloom.AppServer.JsonLineDecoder.push` takes a piece and returns the lines that it
completes. A line must not be longer than a limit – this is noticed as soon as there are too many
bytes, whether or not the line ends – and it must be UTF-8, which is noticed at its end.

What the lines of a stream are is said by `Rivloom.AppServer.expected`, from the segments between
the newlines; the decoder that is handed one byte after the other returns just these. If it is
handed larger pieces, then the lines that end in the piece with the first fault are collected in a
local variable and dropped when the fault is noticed, and the decoder returns the lines that it
should exactly if there are none (`Rivloom.AppServer.JsonLineDecoder.decodes_iff`). What the
connection itself writes – JSON without a line break, and a newline – is read back however it is
cut.
-/

namespace Rivloom.AppServer

variable {b : UInt8}

open Rivloom.Action (bind_assoc bind_of_error bind_of_ok pure_bind)

open Feed

inductive WireError where
  | invalidUtf8
  | lineTooLarge (maxBytes : ℕ)
  deriving DecidableEq

def maxJsonLineBytes : ℕ := 4 * 1024 * 1024

structure JsonLineDecoder where
  buffer : List UInt8
  maxLineBytes : ℕ

def newline : UInt8 := 10

def carriageReturn : UInt8 := 13

/-- The pieces of a chunk, each with the newline at its end. -/
def splitInclusive : List UInt8 → List (List UInt8)
  | [] => []
  | b :: rest =>
    if b = newline then [b] :: splitInclusive rest
    else
      match splitInclusive rest with
      | [] => [[b]]
      | segment :: segments => (b :: segment) :: segments

/-- A line without the carriage return at its end. -/
def withoutCarriageReturn (segment : List UInt8) : List UInt8 :=
  if segment.getLast? = some carriageReturn then segment.dropLast else segment

/-- The text of a line, if it is one. -/
def lineText (segment : List UInt8) : Option String :=
  String.fromUTF8? ⟨(withoutCarriageReturn segment).toArray⟩

namespace JsonLineDecoder

def new (maxLineBytes : ℕ) : JsonLineDecoder := ⟨[], maxLineBytes⟩

def extendBuffer (bytes : List UInt8) : Action JsonLineDecoder WireError Unit := fun decoder =>
  if bytes.length > decoder.maxLineBytes - decoder.buffer.length then
    (.error (.lineTooLarge decoder.maxLineBytes), { decoder with buffer := [] })
  else (.ok (), { decoder with buffer := decoder.buffer ++ bytes })

def takeLine : Action JsonLineDecoder WireError String := fun decoder =>
  (match lineText decoder.buffer with
    | some line => .ok line
    | none => .error .invalidUtf8, { decoder with buffer := [] })

/-- One segment of a chunk. -/
def pushSegment (segment : List UInt8) : Action JsonLineDecoder WireError (List String) :=
  if segment.getLast? = some newline then do
    extendBuffer segment.dropLast
    let line ← takeLine
    return [line]
  else do
    extendBuffer segment
    return []

/-- The segments of a chunk, with the lines that were completed before. -/
def pushSegments : List (List UInt8) → Action JsonLineDecoder WireError (List String)
  | [] => pure []
  | segment :: segments => do
    let lines ← pushSegment segment
    let more ← pushSegments segments
    return lines ++ more

/-- **Take a chunk**: the lines that it completes. -/
def push (chunk : List UInt8) : Action JsonLineDecoder WireError (List String) :=
  pushSegments (splitInclusive chunk)

end JsonLineDecoder

/-! ### What the lines of a stream are -/

/-- **The segments of a stream** that end with a newline, and what is behind the last one. -/
def splitLines : List UInt8 → List (List UInt8) × List UInt8
  | [] => ([], [])
  | b :: rest =>
    if b = newline then ([] :: (splitLines rest).1, (splitLines rest).2)
    else
      match splitLines rest with
      | ([], last) => ([], b :: last)
      | (segment :: segments, last) => ((b :: segment) :: segments, last)

/-- **What is wrong with a segment**, and at which of its bytes this shows: the first one that is
too many, or the newline behind it. -/
def segmentFault (maxLineBytes : ℕ) (segment : List UInt8) (ended : Bool) :
    Option (ℕ × WireError) :=
  if maxLineBytes < segment.length then some (maxLineBytes, .lineTooLarge maxLineBytes)
  else if ended && (lineText segment).isNone then some (segment.length, .invalidUtf8)
  else none

/-- The lines of some segments before the first one with a fault, and the byte of the fault. -/
def expectedOf (maxLineBytes : ℕ) (last : List UInt8) :
    List (List UInt8) → List String × Option (ℕ × WireError)
  | [] => ([], segmentFault maxLineBytes last false)
  | segment :: segments =>
    match segmentFault maxLineBytes segment true with
    | some fault => ([], some fault)
    | none =>
      ((lineText segment).toList ++ (expectedOf maxLineBytes last segments).1,
        (expectedOf maxLineBytes last segments).2.map fun f => (f.1 + (segment.length + 1), f.2))

/-- **The lines of a stream** before its first fault, and the byte at which the fault shows. -/
def expected (maxLineBytes : ℕ) (stream : List UInt8) : List String × Option (ℕ × WireError) :=
  expectedOf maxLineBytes (splitLines stream).2 (splitLines stream).1

/-! ### One byte after the other -/

namespace JsonLineDecoder

variable {decoder : JsonLineDecoder} {buffer : List UInt8} {maxLineBytes : ℕ}

theorem extendBuffer_cons (b : UInt8) (bytes : List UInt8) :
    extendBuffer (b :: bytes) = (do extendBuffer [b]; extendBuffer bytes) := by
  funext decoder
  by_cases hfirst : 1 > decoder.maxLineBytes - decoder.buffer.length
  · have hone : extendBuffer [b] decoder =
        (.error (.lineTooLarge decoder.maxLineBytes), { decoder with buffer := [] }) := by
      exact if_pos hfirst
    rw [bind_of_error hone, extendBuffer, if_pos (by rw [List.length_cons]; omega)]
  · have hone : extendBuffer [b] decoder =
        (.ok (), { decoder with buffer := decoder.buffer ++ [b] }) := by
      exact if_neg hfirst
    rw [bind_of_ok hone, extendBuffer, extendBuffer]
    simp only [List.length_cons, List.length_append, List.length_nil, List.append_assoc,
      List.singleton_append]
    by_cases hrest : bytes.length + 1 > decoder.maxLineBytes - decoder.buffer.length
    · rw [if_pos hrest, if_pos (by omega)]
    · rw [if_neg hrest, if_neg (by omega)]

theorem ne_nil_of_mem_splitInclusive {chunk segment : List UInt8}
    (h : segment ∈ splitInclusive chunk) : segment ≠ [] := by
  induction chunk with
  | nil => cases h
  | cons b rest ih =>
    rw [splitInclusive] at h
    split at h
    · rcases List.mem_cons.mp h with rfl | h
      · exact List.cons_ne_nil _ _
      · exact ih h
    · split at h
      · obtain rfl := List.mem_singleton.mp h
        exact List.cons_ne_nil _ _
      · next hrest =>
        rcases List.mem_cons.mp h with rfl | h
        · exact List.cons_ne_nil _ _
        · exact ih (hrest ▸ List.mem_cons_of_mem _ h)

theorem splitInclusive_eq_nil {chunk : List UInt8} (h : splitInclusive chunk = []) :
    chunk = [] := by
  cases chunk with
  | nil => rfl
  | cons b rest =>
    rw [splitInclusive] at h
    split at h
    · cases h
    · split at h
      · cases h
      · cases h

theorem pushSegments_cons (segment : List UInt8) (segments : List (List UInt8)) :
    pushSegments (segment :: segments) = (do
      let x ← pushSegments [segment]
      let y ← pushSegments segments
      return x ++ y) := by
  simp only [pushSegments, bind_assoc, pure_bind, List.append_nil]

theorem push_byte (hb : b ≠ newline) : push [b] = (do extendBuffer [b]; return []) := by
  have hsplit : splitInclusive [b] = [[b]] := by rw [splitInclusive, if_neg hb]; rfl
  have hends : ¬ [b].getLast? = some newline := fun h => hb (Option.some.inj h)
  rw [push, hsplit, pushSegments, pushSegments, pushSegment, if_neg hends]
  simp only [bind_assoc, pure_bind, List.append_nil]

/-- A segment whose first byte is not a newline: the byte is put into the buffer. -/
theorem pushSegment_cons (hb : b ≠ newline) {segment : List UInt8} (hne : segment ≠ []) :
    pushSegment (b :: segment) = (do
      let x ← push [b]
      let y ← pushSegment segment
      return x ++ y) := by
  have hlast : (b :: segment).getLast? = segment.getLast? := by
    rw [List.getLast?_cons, List.getLast?_eq_some_getLast hne]
    rfl
  rw [push_byte hb, pushSegment, pushSegment, hlast]
  by_cases hends : segment.getLast? = some newline
  · rw [if_pos hends, if_pos hends, List.dropLast_cons_of_ne_nil hne, extendBuffer_cons]
    simp only [bind_assoc, pure_bind, List.nil_append]
  · rw [if_neg hends, if_neg hends, extendBuffer_cons]
    simp only [bind_assoc, pure_bind, List.nil_append]

/-- **A chunk may be pushed byte by byte.** -/
theorem push_cons (b : UInt8) (rest : List UInt8) :
    push (b :: rest) = (do
      let x ← push [b]
      let y ← push rest
      return x ++ y) := by
  by_cases hb : b = newline
  · have hone : splitInclusive [b] = [[b]] := by rw [splitInclusive, if_pos hb]; rfl
    have hall : splitInclusive (b :: rest) = [b] :: splitInclusive rest := by
      rw [splitInclusive, if_pos hb]
    rw [push, push, push, hone, hall, pushSegments_cons]
  · cases hrest : splitInclusive rest with
    | nil =>
      obtain rfl := splitInclusive_eq_nil hrest
      have hnil : push [] = pure [] := rfl
      rw [hnil]
      simp only [pure_bind, List.append_nil, Action.bind_pure]
    | cons segment segments =>
      have hne := ne_nil_of_mem_splitInclusive (hrest ▸ List.mem_cons_self : segment ∈ _)
      have hall : splitInclusive (b :: rest) = (b :: segment) :: segments := by
        rw [splitInclusive, if_neg hb, hrest]
      have hpush : push rest = pushSegments (segment :: segments) := by rw [push, hrest]
      rw [hpush, show push (b :: rest) = pushSegments ((b :: segment) :: segments) by
        rw [push, hall], pushSegments, pushSegments, pushSegment_cons hb hne]
      simp only [bind_assoc, pure_bind, List.append_assoc]

theorem sequential_push : Sequential push := Sequential.of_cons rfl push_cons

theorem push_newline (decoder : JsonLineDecoder) :
    push [newline] decoder = ((takeLine decoder).1.map fun line => [line],
      (takeLine decoder).2) := by
  have hextend : extendBuffer [] decoder = (.ok (), decoder) := by
    rw [extendBuffer, if_neg (by simp), List.append_nil]
  have hpush : push [newline] =
      (do extendBuffer []; let line ← takeLine; return [line]) := by
    change (do let lines ← pushSegment [newline]; let more ← pure []; pure (lines ++ more)) = _
    have hends : [newline].getLast? = some newline := rfl
    rw [pushSegment, if_pos hends]
    simp only [bind_assoc, pure_bind, List.append_nil]
    rfl
  rw [hpush, bind_of_ok hextend]
  rcases hline : takeLine decoder with ⟨e | line, decoder'⟩
  · rw [bind_of_error hline]
    rfl
  · rw [bind_of_ok hline]
    rfl

theorem splitLines_append (h : newline ∉ buffer) (stream : List UInt8) :
    splitLines (buffer ++ stream) =
      match splitLines stream with
      | ([], last) => ([], buffer ++ last)
      | (segment :: segments, last) => ((buffer ++ segment) :: segments, last) := by
  induction buffer with
  | nil =>
    rw [List.nil_append]
    split
    · next heq => exact heq
    · next heq => exact heq
  | cons b buffer ih =>
    rw [List.mem_cons, not_or] at h
    rw [List.cons_append, splitLines, if_neg (Ne.symm h.1), ih h.2]
    rcases splitLines stream with ⟨_ | ⟨segment, segments⟩, last⟩
    · rfl
    · rfl

theorem splitLines_line {line : List UInt8} (h : newline ∉ line) (stream : List UInt8) :
    splitLines (line ++ newline :: stream) =
      (line :: (splitLines stream).1, (splitLines stream).2) := by
  rw [splitLines_append h, splitLines, if_pos rfl]
  simp only [List.append_nil]

theorem expected_of_long {start : List UInt8} (hstart : newline ∉ start)
    (hlong : maxLineBytes < start.length) (stream : List UInt8) :
    expected maxLineBytes (start ++ stream) =
      ([], some (maxLineBytes, .lineTooLarge maxLineBytes)) := by
  rw [expected, splitLines_append hstart]
  rcases splitLines stream with ⟨_ | ⟨segment, segments⟩, last⟩
  · dsimp only
    rw [expectedOf, segmentFault, if_pos (by rw [List.length_append]; omega)]
  · dsimp only
    rw [expectedOf, segmentFault, if_pos (by rw [List.length_append]; omega)]

/-- **Byte by byte, the decoder returns the lines of the stream** that begins with what is in the
buffer. -/
theorem expected_eq_feed (hbuffer : newline ∉ buffer) (hfits : buffer.length ≤ maxLineBytes)
    (stream : List UInt8) :
    expected maxLineBytes (buffer ++ stream) =
      ((feed push (singles stream) ⟨buffer, maxLineBytes⟩).1,
        (feed push (singles stream) ⟨buffer, maxLineBytes⟩).2.map
          fun f => (f.1 + buffer.length, f.2)) := by
  induction stream generalizing buffer with
  | nil =>
    rw [expected, splitLines_append hbuffer]
    change ([], segmentFault maxLineBytes (buffer ++ []) false) = ([], none)
    rw [List.append_nil, segmentFault, if_neg (Nat.not_lt.mpr hfits)]
    rfl
  | cons b rest ih =>
    rw [show singles (b :: rest) = [b] :: singles rest from rfl]
    by_cases hb : b = newline
    · -- a line ends
      obtain rfl := hb
      have hpush := push_newline ⟨buffer, maxLineBytes⟩
      rw [expected, splitLines_line hbuffer rest]
      dsimp only
      rw [expectedOf, segmentFault, if_neg (Nat.not_lt.mpr hfits)]
      cases htext : lineText buffer with
      | none =>
        have htake : takeLine ⟨buffer, maxLineBytes⟩ =
            (.error .invalidUtf8, ⟨[], maxLineBytes⟩) := by
          rw [takeLine, htext]
        rw [htake] at hpush
        rw [feed_of_error hpush]
        simp
      | some line =>
        have htake : takeLine ⟨buffer, maxLineBytes⟩ = (.ok line, ⟨[], maxLineBytes⟩) := by
          rw [takeLine, htext]
        rw [htake] at hpush
        have hrest := ih (List.not_mem_nil : newline ∉ []) (Nat.zero_le _)
        rw [List.nil_append, expected] at hrest
        rw [feed_of_ok hpush]
        simp only [Option.isNone_some, Bool.and_false, Bool.false_eq_true, if_false]
        rw [hrest, Option.map_map, Option.map_map]
        refine congrArg _ (congrArg (Option.map · _) (funext fun f => ?_))
        exact congrArg (·, f.2) (by simp only [List.length_nil]; omega)
    · have hstart : newline ∉ buffer ++ [b] := by
        simpa using ⟨hbuffer, Ne.symm hb⟩
      rw [List.append_cons]
      by_cases hroom : buffer.length < maxLineBytes
      · have hpush : push [b] ⟨buffer, maxLineBytes⟩ = (.ok [], ⟨buffer ++ [b], maxLineBytes⟩) := by
          have hextend : extendBuffer [b] ⟨buffer, maxLineBytes⟩ =
              (.ok (), ⟨buffer ++ [b], maxLineBytes⟩) :=
            if_neg (by simp only [List.length_singleton]; omega)
          rw [push_byte hb, bind_of_ok hextend]
          rfl
        have hlength : (buffer ++ [b]).length ≤ maxLineBytes := by
          rw [List.length_append]
          exact hroom
        rw [feed_of_ok hpush, ih hstart hlength, List.nil_append, Option.map_map]
        refine congrArg _ (congrArg (Option.map · _) (funext fun f => ?_))
        change (f.1 + (buffer ++ [b]).length, f.2) = (f.1 + 1 + buffer.length, f.2)
        rw [List.length_append, List.length_singleton]
        exact congrArg (·, f.2) (by omega)
      · -- the byte is one too many
        obtain rfl : maxLineBytes = buffer.length := by omega
        have hpush : push [b] ⟨buffer, buffer.length⟩ =
            (.error (.lineTooLarge buffer.length), ⟨[], buffer.length⟩) := by
          have hextend : extendBuffer [b] ⟨buffer, buffer.length⟩ =
              (.error (.lineTooLarge buffer.length), ⟨[], buffer.length⟩) :=
            if_pos (by simp only [List.length_singleton]; omega)
          rw [push_byte hb, bind_of_error hextend]
        rw [feed_of_error hpush, expected_of_long hstart (by simp)]
        simp

/-- The decoder has returned a line for each newline before the fault. -/
theorem length_feed (stream : List UInt8) (decoder : JsonLineDecoder) :
    ((feed push (singles stream) decoder).2 = none →
      (feed push (singles stream) decoder).1.length = stream.count newline) ∧
    ∀ p e, (feed push (singles stream) decoder).2 = some (p, e) →
      (feed push (singles stream) decoder).1.length = (stream.take p).count newline := by
  induction stream generalizing decoder with
  | nil => exact ⟨fun _ => rfl, nofun⟩
  | cons b rest ih =>
    rw [show singles (b :: rest) = [b] :: singles rest from rfl]
    rcases hpush : push [b] decoder with ⟨e | lines, decoder'⟩
    · rw [feed_of_error hpush]
      refine ⟨nofun, fun p e' hfault => ?_⟩
      obtain ⟨rfl, -⟩ := Prod.mk.inj (Option.some.inj hfault)
      rfl
    · obtain ⟨hnone, hsome⟩ := ih decoder'
      have hlines : lines.length = [b].count newline := by
        by_cases hb : b = newline
        · obtain rfl := hb
          rw [push_newline] at hpush
          obtain ⟨hmap, -⟩ := Prod.mk.inj hpush
          obtain ⟨line, -, rfl⟩ := Except.map_eq_ok.mp hmap
          rfl
        · rw [push_byte hb] at hpush
          obtain ⟨_, _, -, hreturn⟩ := Action.bind_eq_ok hpush
          cases hreturn
          rw [List.count_singleton]
          simp [hb]
      rw [feed_of_ok hpush]
      constructor
      · intro hfault
        rw [List.length_append, hlines, hnone (Option.map_eq_none_iff.mp hfault),
          ← List.count_append, List.singleton_append]
      · intro p e hfault
        obtain ⟨⟨p', e'⟩, hfault', heq⟩ := Option.map_eq_some_iff.mp hfault
        cases heq
        rw [List.length_append, hlines, hsome _ _ hfault', ← List.count_append,
          List.singleton_append, List.take_succ_cons]

/-! ### Chunks -/

/-- **The decoder returns what it should**: the lines of the stream before its first fault, and the
fault, in the chunk that has the byte of the fault. -/
def Decodes (maxLineBytes : ℕ) (chunks : List (List UInt8)) : Prop :=
  (feed push chunks (new maxLineBytes)).1 = (expected maxLineBytes chunks.flatten).1 ∧
    match (expected maxLineBytes chunks.flatten).2 with
    | none => (feed push chunks (new maxLineBytes)).2 = none
    | some (p, e) => ∃ i, (feed push chunks (new maxLineBytes)).2 = some (i, e) ∧ Within chunks i p

/-- **No line ends in the chunk of the first fault** before the byte of the fault. -/
def NoLineBeforeFault (maxLineBytes : ℕ) (chunks : List (List UInt8)) : Prop :=
  ∀ p e i, (expected maxLineBytes chunks.flatten).2 = some (p, e) → Within chunks i p →
    newline ∉ (chunks.flatten.take p).drop (chunks.take i).flatten.length

/-- **One byte at a time the decoder returns the lines of the stream and its first fault – and in
chunks exactly if no line ends in the chunk of the fault before it.** -/
theorem decodes_iff (maxLineBytes : ℕ) (chunks : List (List UInt8)) :
    feed push (singles chunks.flatten) (new maxLineBytes) = expected maxLineBytes chunks.flatten ∧
      (Decodes maxLineBytes chunks ↔ NoLineBeforeFault maxLineBytes chunks) := by
  have hsingles : feed push (singles chunks.flatten) (new maxLineBytes) =
      expected maxLineBytes chunks.flatten := by
    have h := expected_eq_feed (List.not_mem_nil : newline ∉ []) (Nat.zero_le maxLineBytes)
      chunks.flatten
    rw [List.nil_append] at h
    rw [h]
    simp [new]
  refine ⟨hsingles, ?_⟩
  rcases sequential_push.feed_chunks chunks (new maxLineBytes) with
    ⟨hnone, hsame⟩ | ⟨i, p, e, hfault, hi, hwithin, hbefore, hinit⟩
  · rw [hsingles] at hnone hsame
    rw [Decodes, NoLineBeforeFault, hsame, hnone]
    exact iff_of_true ⟨rfl, rfl⟩ nofun
  · have hfault' := (length_feed chunks.flatten (new maxLineBytes)).2 p e hfault
    have hgot := (length_feed (chunks.take i).flatten (new maxLineBytes)).1 (by rw [hbefore])
    rw [hsingles] at hfault hfault' hinit
    rw [hbefore] at hgot
    dsimp only at hgot
    -- the bytes before the fault: those of the chunks before, and the rest
    have hpieces : (chunks.take i).flatten ++
        (chunks.flatten.take p).drop (chunks.take i).flatten.length = chunks.flatten.take p := by
      have hsplit : chunks.flatten = (chunks.take i).flatten ++ (chunks.drop i).flatten := by
        rw [← List.flatten_append, List.take_append_drop]
      rw [hsplit, List.take_append, List.take_of_length_le hwithin.1, List.drop_left]
    rw [← hpieces, List.count_append] at hfault'
    rw [Decodes, NoLineBeforeFault, hfault]
    constructor
    · rintro ⟨hlines, -⟩ p' e' j hp' hj
      obtain ⟨rfl, rfl⟩ := Prod.mk.inj (Option.some.inj hp')
      obtain rfl := hwithin.unique hj
      refine List.count_eq_zero.mp ?_
      rw [hlines] at hgot
      omega
    · intro hno
      refine ⟨hinit.eq_of_length ?_, i, hi, hwithin⟩
      have hzero := List.count_eq_zero.mpr (hno p e i rfl hwithin)
      omega

/-- **A line is lost.** The chunk holds a line, and a line that is not UTF-8: the decoder reports
the second and does not return the first, which it returns if the chunk is cut between them. -/
theorem line_before_fault_is_lost :
    feed push [[123, 125, 10, 255, 10]] (new maxJsonLineBytes) = ([], some (0, .invalidUtf8)) ∧
      feed push [[123, 125, 10], [255, 10]] (new maxJsonLineBytes) =
        (["\x7b\x7d"], some (1, .invalidUtf8)) ∧
      expected maxJsonLineBytes [123, 125, 10, 255, 10] = (["\x7b\x7d"], some (4, .invalidUtf8)) ∧
      ¬ Decodes maxJsonLineBytes [[123, 125, 10, 255, 10]] := by
  refine ⟨by decide +kernel, by decide +kernel, by decide +kernel, fun h => ?_⟩
  have hlines : (feed push [[123, 125, 10, 255, 10]] (new maxJsonLineBytes)).1 ≠
    (expected maxJsonLineBytes [123, 125, 10, 255, 10]).1 := by decide +kernel
  exact hlines h.1

end JsonLineDecoder

/-! ### What the connection writes -/

/-- The line of a message (`connection.rs`). -/
def jsonLine (message : Json) : String := String.ofList (message.text ++ ['\n'])

/-- The bytes of some messages, one line after the other. -/
def written (messages : List Json) : List UInt8 :=
  messages.flatMap fun message => (jsonLine message).toByteArray.data.toList

namespace JsonLineDecoder

variable (message : Json) (messages : List Json) (maxLineBytes : ℕ)

theorem le_of_mem_utf8EncodeChar {c : Char} (hc : 32 ≤ c.toNat) :
    ∀ b ∈ String.utf8EncodeChar c, 32 ≤ b.toNat := by
  change 32 ≤ c.val.toNat at hc
  rw [String.utf8EncodeChar]
  split_ifs <;> simp only [List.forall_mem_cons, UInt8.toNat_ofNat', List.not_mem_nil,
    false_imp_iff, implies_true, and_true] <;> omega

/-- What is written of a message holds no control character: no line ends in it. -/
theorem le_of_mem_bytes (hb : b ∈ message.bytes.data.toList) : 32 ≤ b.toNat := by
  rw [Json.bytes, String.toByteArray_ofList, List.utf8Encode, List.data_toByteArray,
    List.toList_toArray] at hb
  obtain ⟨c, hc, hb⟩ := List.mem_flatMap.mp hb
  exact le_of_mem_utf8EncodeChar (Json.text_noControl message c hc) b hb

theorem newline_not_mem_bytes : newline ∉ message.bytes.data.toList := by
  intro h
  have hle := le_of_mem_bytes message h
  revert hle
  decide

theorem written_cons :
    written (message :: messages) =
      message.bytes.data.toList ++ newline :: written messages := by
  have hline : (jsonLine message).toByteArray.data.toList =
      message.bytes.data.toList ++ [newline] := by
    rw [jsonLine, Json.bytes, String.ofList_append, String.toByteArray_append,
      ByteArray.data_append, Array.toList_append]
    rfl
  rw [written, List.flatMap_cons, hline, List.append_assoc]
  rfl

/-- A message has no carriage return, and its bytes are UTF-8. -/
theorem lineText_bytes :
    lineText message.bytes.data.toList = some (String.ofList message.text) := by
  have hend : message.bytes.data.toList.getLast? ≠ some carriageReturn := by
    intro h
    have hle := le_of_mem_bytes message (List.mem_of_getLast? h)
    revert hle
    decide
  rw [lineText, withoutCarriageReturn, if_neg hend, Array.toArray_toList]
  exact Json.fromUTF8?_toByteArray _

/-- The lines of what is written are the messages before the first one that is too long. -/
theorem expected_written (messages : List Json) :
    (expected maxLineBytes (written messages)).1 =
        (messages.takeWhile (·.bytes.size ≤ maxLineBytes)).map
          (fun message => String.ofList message.text) ∧
      ((expected maxLineBytes (written messages)).2 = none ↔
        ∀ message ∈ messages, message.bytes.size ≤ maxLineBytes) := by
  induction messages with
  | nil => exact ⟨rfl, by simp [expected, written, splitLines, expectedOf, segmentFault]⟩
  | cons message messages ih =>
    have hlength : message.bytes.data.toList.length = message.bytes.size := Array.length_toList
    rw [written_cons, List.takeWhile_cons, List.forall_mem_cons]
    by_cases hfits : message.bytes.size ≤ maxLineBytes
    · rw [expected, splitLines_line (newline_not_mem_bytes message), expectedOf, segmentFault,
        if_neg (by omega), lineText_bytes, if_pos (decide_eq_true hfits)]
      simp only [Option.isNone_some, Bool.and_false, Bool.false_eq_true, if_false,
        Option.toList_some, List.singleton_append, Option.map_eq_none_iff, List.map_cons]
      exact ⟨congrArg _ ih.1, ih.2.trans (and_iff_right hfits).symm⟩
    · rw [expected_of_long (newline_not_mem_bytes message) (by omega),
        if_neg (by simpa using hfits)]
      exact ⟨rfl, iff_of_false (Option.some_ne_none _) fun h => hfits h.1⟩

/-- The same of the decoder that is handed one byte after the other. -/
theorem feed_singles_written (messages : List Json) :
    (feed push (singles (written messages)) (new maxLineBytes)).1 =
        (messages.takeWhile (·.bytes.size ≤ maxLineBytes)).map
          (fun message => String.ofList message.text) ∧
      ((feed push (singles (written messages)) (new maxLineBytes)).2 = none ↔
        ∀ message ∈ messages, message.bytes.size ≤ maxLineBytes) := by
  have hfeed := expected_eq_feed (List.not_mem_nil : newline ∉ []) (Nat.zero_le maxLineBytes)
    (written messages)
  have hexpected := expected_written maxLineBytes messages
  rw [List.nil_append] at hfeed
  rw [hfeed, Option.map_eq_none_iff] at hexpected
  exact hexpected

theorem parse_lines :
    (messages.map fun message => String.ofList message.text).map
      (fun line => Json.parse line.toList) = messages.map some := by
  rw [List.map_map]
  refine List.map_congr_left fun message _ => ?_
  rw [Function.comp_apply, String.toList_ofList, Json.parse_text]

/-- **What the connection writes is what the decoder reads.** However the lines of some messages
are cut into chunks, the lines that the decoder returns are parsed to the first of the messages;
it fails exactly if a message is longer than the limit, and if none is then it returns the text of
every message. -/
theorem json_lines_are_read_back (maxLineBytes : ℕ) (messages : List Json)
    (chunks : List (List UInt8)) (hchunks : chunks.flatten = written messages) :
    let lines := (feed push chunks (new maxLineBytes)).1
    let fits := ∀ message ∈ messages, message.bytes.size ≤ maxLineBytes
    lines.map (fun line => Json.parse line.toList) <+: messages.map some ∧
      ((feed push chunks (new maxLineBytes)).2 = none ↔ fits) ∧
      (fits → lines = messages.map fun message => String.ofList message.text) := by
  intro lines fits
  obtain ⟨hlines, hnone⟩ := feed_singles_written maxLineBytes messages
  rcases sequential_push.feed_chunks chunks (new maxLineBytes) with
    ⟨hok, hsame⟩ | ⟨i, p, e, hfault, hi, -, -, hinit⟩
  · rw [hchunks] at hok hsame
    have hfits : fits := hnone.mp hok
    have hall : messages.takeWhile (·.bytes.size ≤ maxLineBytes) = messages :=
      List.takeWhile_eq_self_iff.mpr fun message h => decide_eq_true (hfits message h)
    have heq : lines = messages.map fun message => String.ofList message.text := by
      rw [hall] at hlines
      exact (congrArg Prod.fst hsame).trans hlines
    refine ⟨?_, iff_of_true ((congrArg Prod.snd hsame).trans hok) hfits, fun _ => heq⟩
    exact ⟨[], by rw [List.append_nil, heq, parse_lines]⟩
  · -- the messages before the one that is too long, or only some of them
    rw [hchunks] at hfault hinit
    have hlong : ¬ fits := by
      intro hfits
      rw [hnone.mpr hfits] at hfault
      cases hfault
    refine ⟨?_, iff_of_false (by simp [hi]) hlong, fun hfits => absurd hfits hlong⟩
    rw [hlines] at hinit
    have hparsed := hinit.map fun line => Json.parse line.toList
    rw [parse_lines] at hparsed
    exact hparsed.trans ((List.takeWhile_prefix _).map some)

/-- Two messages, cut within the first: the decoder returns both. -/
theorem two_json_lines_are_read_back :
    feed push [[110, 117], [108, 108, 10, 91, 93, 10]] (new maxJsonLineBytes) =
      (["null", "[]"], none) := by
  have hchunks : [[110, 117], [108, 108, 10, 91, 93, 10]].flatten = written [.null, .arr []] := by
    decide +kernel
  have hfits : ∀ message ∈ [Json.null, Json.arr []], message.bytes.size ≤ maxJsonLineBytes := by
    decide +kernel
  obtain ⟨-, hnone, hlines⟩ := json_lines_are_read_back maxJsonLineBytes _ _ hchunks
  exact Prod.ext (hlines hfits) (hnone.mpr hfits)

end JsonLineDecoder

end Rivloom.AppServer
