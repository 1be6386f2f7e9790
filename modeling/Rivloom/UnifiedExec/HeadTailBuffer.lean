import Rivloom.Lib.RustStd
import Rivloom.Lib.BothEnds

/-!
# The buffer for the output of a command

The output of a command can be long, and its middle is what one can do without. The buffer keeps the
first bytes, up to half of its capacity, and the last bytes, and counts those in between
(`Rivloom.UnifiedExec.HeadTailBuffer`). It is filled by chunks, whose ends mean nothing, and by
other buffers, whose omitted bytes are gone.

Both ways it holds what it should: the buffer of a sequence of bytes is a function of the sequence
(`Rivloom.UnifiedExec.HeadTailBuffer.summary`), and pushing the buffer of `b` onto that of `a` gives
the buffer of `a ++ b` (`Rivloom.UnifiedExec.HeadTailBuffer.summary_homomorphism`).

The count is cut off at the greatest number there is, and so is the one of the summary; below, it is
the exact number.
-/

namespace Rivloom.UnifiedExec

/-- `HeadTailBuffer<MAX_BYTES>`. -/
structure HeadTailBuffer (maxBytes : ℕ) where
  head : List UInt8
  tail : List UInt8
  omittedBytes : ℕ
  deriving Repr, DecidableEq

namespace HeadTailBuffer

variable (a chunk : List UInt8)

/-- `HEAD_BUDGET`. -/
def headBudget (maxBytes : ℕ) : ℕ := maxBytes / 2

/-- `TAIL_BUDGET`. -/
def tailBudget (maxBytes : ℕ) : ℕ := maxBytes - headBudget maxBytes

variable {maxBytes : ℕ}

/-- `HeadTailBuffer::default()`. -/
def empty (maxBytes : ℕ) : HeadTailBuffer maxBytes := ⟨[], [], 0⟩

/-- `fill_head`: the buffer, and the bytes that did not fit. -/
def fillHead (buffer : HeadTailBuffer maxBytes) (chunk : List UInt8) :
    HeadTailBuffer maxBytes × List UInt8 :=
  let remainingHead := headBudget maxBytes - buffer.head.length
  let parts :=
    if remainingHead ≤ chunk.length then (chunk.take remainingHead, chunk.drop remainingHead)
    else (chunk, [])
  ({ buffer with head := buffer.head ++ parts.1 }, parts.2)

/-- `push_tail`. -/
def pushTail (buffer : HeadTailBuffer maxBytes) (chunk : List UInt8) : HeadTailBuffer maxBytes :=
  let remainingTail := tailBudget maxBytes - buffer.tail.length
  let excessTail := chunk.length - remainingTail
  { buffer with
    omittedBytes := U64.saturatingAdd buffer.omittedBytes excessTail
    tail :=
      if excessTail < buffer.tail.length then buffer.tail.drop excessTail ++ chunk
      else chunk.drop (excessTail - buffer.tail.length) }

/-- `push_chunk`. -/
def pushChunk (buffer : HeadTailBuffer maxBytes) (chunk : List UInt8) : HeadTailBuffer maxBytes :=
  let filled := buffer.fillHead chunk
  filled.1.pushTail filled.2

/-- `push_buffer`. The two slices of the tail of the other buffer are cut at any place. -/
def pushBuffer (cut : ℕ) (buffer other : HeadTailBuffer maxBytes) : HeadTailBuffer maxBytes :=
  let counted :=
    { buffer with omittedBytes := U64.saturatingAdd buffer.omittedBytes other.omittedBytes }
  let filled :=
    if buffer.head = [] then ({ counted with head := other.head }, [])
      else counted.fillHead other.head
  if other.tail.length = tailBudget maxBytes then
    { filled.1 with
      omittedBytes := U64.saturatingAdd
        (U64.saturatingAdd filled.1.omittedBytes filled.1.tail.length) filled.2.length
      tail := other.tail }
  else
    let pushed := filled.1.pushTail filled.2
    if pushed.tail = [] then { pushed with tail := other.tail }
    else (pushed.pushTail (other.tail.take cut)).pushTail (other.tail.drop cut)

/-! ### What a buffer should hold -/

/-- **The buffer of a sequence of bytes**: the first bytes, the last ones of the others, and how
many there are in between. -/
def summary (maxBytes : ℕ) (bytes : List UInt8) : HeadTailBuffer maxBytes where
  head := bytes.take (headBudget maxBytes)
  tail := (bytes.drop (headBudget maxBytes)).rtake (tailBudget maxBytes)
  omittedBytes :=
    min (bytes.length - headBudget maxBytes - tailBudget maxBytes) U64.maxValue

/-- The bytes that a buffer holds and those that it has left out are all. -/
theorem length_summary {bytes : List UInt8} (h : bytes.length < U64.maxValue) :
    (summary maxBytes bytes).head.length + (summary maxBytes bytes).omittedBytes +
      (summary maxBytes bytes).tail.length = bytes.length := by
  simp only [summary, List.length_take, BothEnds.length_rtake, List.length_drop]
  omega

/-! ### Chunks -/

variable {head tail : List UInt8} {omitted : ℕ}

theorem fillHead_take :
    fillHead (⟨a.take (headBudget maxBytes), tail, omitted⟩ : HeadTailBuffer maxBytes) chunk =
      (⟨(a ++ chunk).take (headBudget maxBytes), tail, omitted⟩,
        chunk.drop (headBudget maxBytes - a.length)) := by
  have hremaining : headBudget maxBytes - (a.take (headBudget maxBytes)).length =
      headBudget maxBytes - a.length := by
    rw [List.length_take]
    omega
  rw [fillHead, List.take_append]
  simp only [hremaining]
  split
  · rfl
  · next hlt =>
    have htake : chunk.take (headBudget maxBytes - a.length) = chunk :=
      List.take_of_length_le (by omega)
    have hdrop : chunk.drop (headBudget maxBytes - a.length) = [] :=
      List.drop_of_length_le (by omega)
    rw [htake, hdrop]

/-- **The tail keeps the last bytes** of all that were pushed to it. -/
theorem pushTail_rtake (r chunk : List UInt8) (n : ℕ) :
    pushTail (⟨head, r.rtake (tailBudget maxBytes), min n U64.maxValue⟩ : HeadTailBuffer maxBytes)
        chunk =
      ⟨head, (r ++ chunk).rtake (tailBudget maxBytes),
        min (n + (chunk.length - (tailBudget maxBytes - r.length))) U64.maxValue⟩ := by
  have hlength := BothEnds.length_rtake r (tailBudget maxBytes)
  have hexcess : chunk.length - (tailBudget maxBytes - (r.rtake (tailBudget maxBytes)).length) =
      chunk.length - (tailBudget maxBytes - r.length) := by omega
  have htail : (r ++ chunk).rtake (tailBudget maxBytes) =
      (r.rtake (tailBudget maxBytes)).drop (chunk.length - (tailBudget maxBytes - r.length)) ++
        chunk.drop (chunk.length - (tailBudget maxBytes - r.length) -
          (r.rtake (tailBudget maxBytes)).length) := by
    rw [← BothEnds.rtake_append, List.rtake, List.drop_append, List.length_append]
    congr 2
    · omega
    · omega
  rw [pushTail, htail]
  simp only [hexcess, U64.saturatingAdd_min_left]
  congr 1
  split
  · next hlt => rw [Nat.sub_eq_zero_of_le hlt.le, List.drop_zero]
  · next hle => rw [List.drop_of_length_le (not_lt.mp hle), List.nil_append]

theorem pushTail_pushTail (r c d : List UInt8) (n : ℕ) :
    (pushTail (⟨head, r.rtake (tailBudget maxBytes), min n U64.maxValue⟩ : HeadTailBuffer maxBytes)
        c).pushTail d =
      pushTail ⟨head, r.rtake (tailBudget maxBytes), min n U64.maxValue⟩ (c ++ d) := by
  rw [pushTail_rtake, pushTail_rtake, pushTail_rtake, List.append_assoc, List.length_append,
    List.length_append]
  congr 2
  omega

/-- **A chunk.** -/
theorem pushChunk_summary :
    (summary maxBytes a).pushChunk chunk = summary maxBytes (a ++ chunk) := by
  rw [pushChunk, summary, fillHead_take]
  simp only [pushTail_rtake]
  rw [summary, List.drop_append, List.length_append, List.length_drop, List.length_drop]
  congr 2
  omega

/-- **Any chunking of the bytes.** -/
theorem foldl_pushChunk (chunks : List (List UInt8)) (a : List UInt8) :
    chunks.foldl pushChunk (summary maxBytes a) = summary maxBytes (a ++ chunks.flatten) := by
  induction chunks generalizing a with
  | nil => rw [List.flatten_nil, List.append_nil, List.foldl_nil]
  | cons chunk chunks ih =>
    rw [List.foldl_cons, pushChunk_summary, ih, List.flatten_cons, List.append_assoc]

theorem summary_nil : summary maxBytes [] = empty maxBytes := by
  simp [summary, empty]

/-! ### Buffers -/

theorem filled_summary (a b : List UInt8) :
    (if a.take (headBudget maxBytes) = [] then
      ((⟨b.take (headBudget maxBytes), tail, omitted⟩ : HeadTailBuffer maxBytes), [])
    else fillHead ⟨a.take (headBudget maxBytes), tail, omitted⟩ (b.take (headBudget maxBytes))) =
      (⟨(a ++ b).take (headBudget maxBytes), tail, omitted⟩,
        (b.take (headBudget maxBytes)).drop (headBudget maxBytes - a.length)) := by
  split
  · next hnil =>
    -- there are no bytes yet, or there is no room for any
    rcases List.take_eq_nil_iff.mp hnil with hzero | rfl
    · simp [hzero]
    · rw [List.nil_append, List.length_nil, Nat.sub_zero, List.drop_of_length_le]
      rw [List.length_take]
      omega
  · have hmin : min (headBudget maxBytes - a.length) (headBudget maxBytes) =
        headBudget maxBytes - a.length := by omega
    rw [fillHead_take, List.take_append, List.take_append, List.take_take, hmin]

theorem drop_append_summary (a b : List UInt8) :
    (a ++ b).drop (headBudget maxBytes) = a.drop (headBudget maxBytes) ++
      (b.take (headBudget maxBytes)).drop (headBudget maxBytes - a.length) ++
        b.drop (headBudget maxBytes) := by
  have hb : b.drop (headBudget maxBytes - a.length) =
      (b.take (headBudget maxBytes)).drop (headBudget maxBytes - a.length) ++
        b.drop (headBudget maxBytes) := by
    conv_lhs => rw [← List.take_append_drop (headBudget maxBytes) b, List.drop_append]
    congr 1
    rw [List.drop_drop, List.length_take]
    rcases le_total (headBudget maxBytes) b.length with hle | hle
    · congr 1
      omega
    · rw [List.drop_of_length_le hle, List.drop_of_length_le (by omega)]
  rw [List.drop_append, List.append_assoc, hb]

/-- **A buffer.** -/
theorem pushBuffer_summary (cut : ℕ) (a b : List UInt8) :
    pushBuffer cut (summary maxBytes a) (summary maxBytes b) = summary maxBytes (a ++ b) := by
  have hbudgets : headBudget maxBytes ≤ tailBudget maxBytes := by
    rw [tailBudget, headBudget]
    omega
  have hoverflow : ((b.take (headBudget maxBytes)).drop (headBudget maxBytes - a.length)).length =
      min (headBudget maxBytes) b.length - (headBudget maxBytes - a.length) := by
    rw [List.length_drop, List.length_take]
  simp only [pushBuffer, summary, U64.saturatingAdd_min, filled_summary]
  rw [drop_append_summary, List.length_append]
  split
  · next hfull =>
    -- the bytes of `b` are enough for the tail
    rw [BothEnds.length_rtake, List.length_drop] at hfull
    rw [BothEnds.rtake_append_of_le _ (by rw [List.length_drop]; omega)]
    congr 1
    rw [U64.saturatingAdd_min_left, U64.saturatingAdd_min_left, hoverflow, BothEnds.length_rtake,
      List.length_drop]
    omega
  · next hpartial =>
    rw [BothEnds.length_rtake, List.length_drop] at hpartial
    have hb : (b.drop (headBudget maxBytes)).rtake (tailBudget maxBytes) =
        b.drop (headBudget maxBytes) :=
      BothEnds.rtake_of_length_le (by rw [List.length_drop]; omega)
    rw [hb, pushTail_pushTail, pushTail_pushTail, List.append_assoc, List.take_append_drop,
      pushTail_rtake, pushTail_rtake]
    split
    · next hnil =>
      -- nothing is in the tail yet
      have hempty := congrArg List.length hnil
      rw [BothEnds.length_rtake, List.length_append, hoverflow, List.length_drop,
        List.length_nil] at hempty
      have hnone : a.drop (headBudget maxBytes) ++
          (b.take (headBudget maxBytes)).drop (headBudget maxBytes - a.length) = [] := by
        rw [← List.length_eq_zero_iff, List.length_append, hoverflow, List.length_drop]
        omega
      rw [hnone, List.nil_append, hb]
      congr 1
      simp only [hoverflow, List.length_drop]
      omega
    · rw [List.append_assoc, List.length_append, hoverflow, List.length_drop, List.length_drop]
      congr 2
      omega

/-- **The buffer is a homomorphic summary.** After any chunking of a sequence of bytes it holds the
first bytes, up to its budget, the last ones of the others, up to its budget, and – below the
greatest number there is – the exact number of those in between; and a buffer of `b` pushed onto a
buffer of `a` gives the buffer of `a ++ b`. -/
theorem summary_homomorphism (maxBytes : ℕ) :
    (∀ (bytes : List UInt8) (chunks : List (List UInt8)), chunks.flatten = bytes →
      (chunks.foldl pushChunk (empty maxBytes)).head = bytes.take (maxBytes / 2) ∧
      (chunks.foldl pushChunk (empty maxBytes)).tail =
        (bytes.drop (maxBytes / 2)).rtake (maxBytes - maxBytes / 2) ∧
      (bytes.length < U64.maxValue →
        (chunks.foldl pushChunk (empty maxBytes)).head.length +
          (chunks.foldl pushChunk (empty maxBytes)).omittedBytes +
          (chunks.foldl pushChunk (empty maxBytes)).tail.length = bytes.length)) ∧
    ∀ (cut : ℕ) (a b c : List (List UInt8)), c.flatten = a.flatten ++ b.flatten →
      pushBuffer cut (a.foldl pushChunk (empty maxBytes)) (b.foldl pushChunk (empty maxBytes)) =
        c.foldl pushChunk (empty maxBytes) := by
  have hbuffer (chunks : List (List UInt8)) :
      chunks.foldl pushChunk (empty maxBytes) = summary maxBytes chunks.flatten := by
    rw [← summary_nil, foldl_pushChunk, List.nil_append]
  constructor
  · rintro _ chunks rfl
    rw [hbuffer]
    exact ⟨rfl, rfl, length_summary⟩
  · intro cut a b c hflatten
    rw [hbuffer, hbuffer, hbuffer, pushBuffer_summary, hflatten]

/-- Ten bytes of capacity and twelve bytes, in two chunks. -/
example : ([[48, 49, 50, 51, 52, 53, 54, 55, 56, 57], [97, 98]].foldl pushChunk (empty 10)) =
    ⟨[48, 49, 50, 51, 52], [55, 56, 57, 97, 98], 2⟩ := by decide

end HeadTailBuffer

end Rivloom.UnifiedExec
