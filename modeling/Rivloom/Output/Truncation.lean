import Rivloom.Lib.Json
import Rivloom.Lib.ListEdit
import Rivloom.Lib.RustStd
import Rivloom.Session.ResponseItem

/-!
# Truncated tool outputs

What a tool answered is cut down to a budget, in bytes or in estimated tokens
(`output-truncation`, `truncate.rs`). Texts and audio are paid for in their order, as long as
the budget lasts: a text that costs more than what is left is cut in the middle and takes the
rest of the budget, later texts are omitted, and so is audio that costs too much. Images and
encrypted content are always kept. At the end there is a line about the texts that were
omitted, and one about the audio (`Rivloom.Output.truncated_output_respects_budget`).

A text is cut at two byte offsets, which are found by one pass over its characters
(`Rivloom.Output.splitString`). Slicing a text within a character would be a panic, which the
model keeps as `none`; the pass only notes ends of characters, and what it counts between the
two is what is cut out (`Rivloom.Output.splitString_eq`).
-/

namespace Rivloom.Output

variable {text snippet : String}

open Session

/-! ### Slices of texts -/

/-- A text in two, at an offset in bytes. The offset has to be at the end of a character. -/
def splitAtByte : ℕ → List Char → Option (List Char × List Char)
  | 0, s => some ([], s)
  | _ + 1, [] => none
  | n + 1, c :: s =>
    if c.utf8Size ≤ n + 1 then
      (splitAtByte (n + 1 - c.utf8Size) s).map fun cut => (c :: cut.1, cut.2)
    else none

theorem splitAtByte_zero (s : List Char) : splitAtByte 0 s = some ([], s) := by
  cases s with
  | nil => rfl
  | cons c s => rfl

/-- **A text can be split where a character ends.** -/
theorem splitAtByte_append (u v : List Char) :
    splitAtByte (byteLength u) (u ++ v) = some (u, v) := by
  induction u with
  | nil => exact splitAtByte_zero v
  | cons c u ih =>
    obtain ⟨n, hn⟩ : ∃ n, byteLength (c :: u) = n + 1 :=
      Nat.exists_eq_succ_of_ne_zero (by have := c.utf8Size_pos; rw [byteLength_cons]; omega)
    have hrest : n + 1 - c.utf8Size = byteLength u := by rw [← hn, byteLength_cons]; omega
    have hle : c.utf8Size ≤ n + 1 := by rw [← hn, byteLength_cons]; exact Nat.le_add_right _ _
    rw [hn, List.cons_append, splitAtByte, if_pos hle, hrest, ih]
    rfl

/-! ### Truncating a text -/

def approxBytesPerToken : ℕ := 4

/-- `approx_token_count`, of the length of a text. -/
def approxTokenCount (text : String) : ℕ :=
  (text.utf8ByteSize + (approxBytesPerToken - 1)) / approxBytesPerToken

def approxBytesForTokens (tokens : ℕ) : ℕ := min (tokens * approxBytesPerToken) U64.maxValue

def approxTokensFromByteCount (bytes : ℕ) : ℕ :=
  (bytes + (approxBytesPerToken - 1)) / approxBytesPerToken

/-- Where the pass of `split_string` over the characters of a text stands. -/
structure SplitState where
  idx : ℕ := 0
  prefixEnd : ℕ := 0
  suffixStart : ℕ
  removedChars : ℕ := 0
  suffixStarted : Bool := false

/-- The pass reads a character. -/
def splitStep (beginningBytes tailStartTarget : ℕ) (st : SplitState) (ch : Char) : SplitState :=
  let charEnd := st.idx + ch.utf8Size
  if charEnd ≤ beginningBytes then { st with idx := charEnd, prefixEnd := charEnd }
  else if tailStartTarget ≤ st.idx then
    if st.suffixStarted then { st with idx := charEnd }
    else { st with idx := charEnd, suffixStart := st.idx, suffixStarted := true }
  else { st with idx := charEnd, removedChars := st.removedChars + 1 }

/-- **Cut the middle out of a text**: the number of characters that go, and what is left in front
and behind. -/
def splitString (s : List Char) (beginningBytes endBytes : ℕ) :
    Option (ℕ × List Char × List Char) :=
  if s = [] then some (0, [], [])
  else
    let len := byteLength s
    let st := s.foldl (splitStep beginningBytes (len - endBytes)) { suffixStart := len }
    let suffixStart := if st.suffixStart < st.prefixEnd then st.prefixEnd else st.suffixStart
    (splitAtByte st.prefixEnd s).bind fun before =>
      (splitAtByte suffixStart s).map fun after => (st.removedChars, before.1, after.2)

def splitBudget (budget : ℕ) : ℕ × ℕ := (budget / 2, budget - budget / 2)

def formatTruncationMarker (useTokens : Bool) (removedCount : ℕ) : String :=
  if useTokens then "…" ++ toString removedCount ++ " tokens truncated…"
  else "…" ++ toString removedCount ++ " chars truncated…"

def removedUnits (useTokens : Bool) (removedBytes removedChars : ℕ) : ℕ :=
  if useTokens then approxTokensFromByteCount removedBytes else removedChars

def assembleTruncatedOutput (before after : List Char) (marker : String) : String :=
  String.ofList (before ++ marker.toList ++ after)

def truncateWithByteEstimate (s : String) (maxBytes : ℕ) (useTokens : Bool) : Option String :=
  if s = "" then some ""
  else if maxBytes = 0 then
    some (formatTruncationMarker useTokens
      (removedUnits useTokens s.utf8ByteSize s.toList.length))
  else if s.utf8ByteSize ≤ maxBytes then some s
  else
    let budgets := splitBudget maxBytes
    (splitString s.toList budgets.1 budgets.2).map fun (removedChars, left, right) =>
      assembleTruncatedOutput left right
        (formatTruncationMarker useTokens
          (removedUnits useTokens (s.utf8ByteSize - maxBytes) removedChars))

def truncateMiddleChars (s : String) (maxBytes : ℕ) : Option String :=
  truncateWithByteEstimate s maxBytes false

/-- The text, and how many tokens it had if it was truncated. -/
def truncateMiddleWithTokenBudget (s : String) (maxTokens : ℕ) : Option (String × Option ℕ) :=
  if s = "" then some ("", none)
  else if 0 < maxTokens ∧ s.utf8ByteSize ≤ approxBytesForTokens maxTokens then some (s, none)
  else
    (truncateWithByteEstimate s (approxBytesForTokens maxTokens) true).map fun truncated =>
      if truncated = s then (truncated, none) else (truncated, some (approxTokenCount s))

inductive TruncationPolicy where
  | bytes (bytes : ℕ)
  | tokens (tokens : ℕ)
  deriving DecidableEq

def truncateText (content : String) : TruncationPolicy → Option String
  | .bytes bytes => truncateMiddleChars content bytes
  | .tokens tokens => (truncateMiddleWithTokenBudget content tokens).map Prod.fst

/-! ### Truncating the items of an output -/

namespace TruncationPolicy

/-- The budget, in the unit of the policy. -/
def budget : TruncationPolicy → ℕ
  | bytes n => n
  | tokens n => n

/-- The same policy with another budget. -/
def withBudget (remainingBudget : ℕ) : TruncationPolicy → TruncationPolicy
  | bytes _ => bytes remainingBudget
  | tokens _ => tokens remainingBudget

def byteBudget : TruncationPolicy → ℕ
  | bytes n => n
  | tokens n => approxBytesForTokens n

def textCost (text : String) : TruncationPolicy → ℕ
  | bytes _ => text.utf8ByteSize
  | tokens _ => approxTokenCount text

def audioCost (tokenCost : ℕ) : TruncationPolicy → ℕ
  | bytes _ => approxBytesForTokens tokenCost
  | tokens _ => tokenCost

end TruncationPolicy

/-- What the loop over the items carries. -/
structure OutputState where
  out : List FunctionCallOutputContentItem := []
  remainingBudget : ℕ
  omittedTextItems : ℕ := 0
  omittedAudioItems : ℕ := 0

section Items

variable (policy : TruncationPolicy) (estimateAudioTokenCount : String → ℕ)

/-- What is left of a text that costs too much. -/
def OutputState.cut (st : OutputState) (snippet : String) : OutputState :=
  if snippet = "" then { st with remainingBudget := 0, omittedTextItems := st.omittedTextItems + 1 }
  else { st with remainingBudget := 0, out := st.out ++ [.inputText snippet] }

/-- The loop reads an item. -/
def truncateItem (st : OutputState) : FunctionCallOutputContentItem → Option OutputState
  | .inputText text =>
    if st.remainingBudget = 0 then
      some { st with omittedTextItems := st.omittedTextItems + 1 }
    else if policy.textCost text ≤ st.remainingBudget then
      some { st with
        out := st.out ++ [.inputText text]
        remainingBudget := st.remainingBudget - policy.textCost text }
    else (truncateText text (policy.withBudget st.remainingBudget)).map st.cut
  | .inputImage imageUrl detail => some { st with out := st.out ++ [.inputImage imageUrl detail] }
  | .inputAudio audioUrl =>
    let cost := policy.audioCost (estimateAudioTokenCount audioUrl)
    if cost ≤ st.remainingBudget then
      some { st with
        out := st.out ++ [.inputAudio audioUrl]
        remainingBudget := st.remainingBudget - cost }
    else some { st with omittedAudioItems := st.omittedAudioItems + 1 }
  | .encryptedContent encryptedContent =>
    some { st with out := st.out ++ [.encryptedContent encryptedContent] }

/-- The lines about what was omitted. -/
def omissions (omittedTextItems omittedAudioItems : ℕ) : List FunctionCallOutputContentItem :=
  (if 0 < omittedTextItems then
    [.inputText ("[omitted " ++ toString omittedTextItems ++ " text items ...]")] else []) ++
  if 0 < omittedAudioItems then
    [.inputText ("[omitted " ++ toString omittedAudioItems ++ " audio items ...]")] else []

/-- **Truncate an output.** -/
def truncateFunctionOutputItemsWithPolicy (items : List FunctionCallOutputContentItem) :
    Option (List FunctionCallOutputContentItem) :=
  (items.foldlM (truncateItem policy estimateAudioTokenCount)
    { remainingBudget := policy.budget }).map fun st =>
      st.out ++ omissions st.omittedTextItems st.omittedAudioItems

end Items

/-! ### The pass over a text -/

/-- **What the pass has seen**: a beginning that fits, what is cut out, and the end, as far as it
was read. -/
structure Seen (beginningBytes tailStartTarget len : ℕ) (before removed after : List Char)
    (st : SplitState) : Prop where
  idx : st.idx = byteLength (before ++ removed ++ after)
  prefixEnd : st.prefixEnd = byteLength before
  removedChars : st.removedChars = removed.length
  suffixStart : st.suffixStart = if after = [] then len else byteLength (before ++ removed)
  suffixStarted : st.suffixStarted = !after.isEmpty
  fits : byteLength before ≤ beginningBytes
  past : removed ++ after ≠ [] → beginningBytes < st.idx
  tail : after ≠ [] → tailStartTarget ≤ byteLength (before ++ removed)

namespace Seen

variable {beginningBytes tailStartTarget len : ℕ} {before removed after : List Char}
  {st : SplitState} {ch : Char}

theorem begin (h : Seen beginningBytes tailStartTarget len before removed after st)
    (hfits : st.idx + ch.utf8Size ≤ beginningBytes) :
    removed = [] ∧ after = [] ∧
      Seen beginningBytes tailStartTarget len (before ++ [ch]) [] []
        (splitStep beginningBytes tailStartTarget st ch) := by
  have hnone : removed ++ after = [] := by
    by_contra hne
    have hpast := h.past hne
    omega
  obtain ⟨rfl, rfl⟩ := List.append_eq_nil_iff.mp hnone
  have hidx : st.idx = byteLength before := by
    have hidx := h.idx
    rwa [List.append_nil, List.append_nil] at hidx
  have hlength : byteLength (before ++ [ch]) = st.idx + ch.utf8Size := by
    rw [byteLength_append, hidx]
    rfl
  refine ⟨rfl, rfl, ?_⟩
  rw [splitStep, if_pos hfits]
  exact
    { idx := by simp only [List.append_nil, hlength]
      prefixEnd := hlength.symm
      removedChars := h.removedChars
      suffixStart := h.suffixStart
      suffixStarted := h.suffixStarted
      fits := by rw [hlength]; exact hfits
      past := fun hne => absurd rfl hne
      tail := fun hne => absurd rfl hne }

theorem idx_concat (h : Seen beginningBytes tailStartTarget len before removed after st)
    (ch : Char) : st.idx + ch.utf8Size = byteLength (before ++ removed ++ (after ++ [ch])) := by
  rw [← List.append_assoc, byteLength_append, ← h.idx]
  rfl

theorem finish (h : Seen beginningBytes tailStartTarget len before removed after st)
    (hpast : beginningBytes < st.idx + ch.utf8Size) (htail : tailStartTarget ≤ st.idx) :
    Seen beginningBytes tailStartTarget len before removed (after ++ [ch])
      (splitStep beginningBytes tailStartTarget st ch) := by
  have hconcat : after ++ [ch] ≠ [] := by simp
  rw [splitStep, if_neg (Nat.not_le_of_lt hpast), if_pos htail]
  cases after with
  | nil =>
    -- the end begins here
    have hstarted : st.suffixStarted = false := h.suffixStarted
    have hidx : st.idx = byteLength (before ++ removed) := by
      have hidx := h.idx
      rwa [List.append_nil] at hidx
    rw [hstarted, if_neg Bool.false_ne_true]
    exact
      { idx := h.idx_concat ch
        prefixEnd := h.prefixEnd
        removedChars := h.removedChars
        suffixStart := by rw [if_neg hconcat]; exact hidx
        suffixStarted := rfl
        fits := h.fits
        past := fun _ => hpast
        tail := fun _ => hidx ▸ htail }
  | cons c after =>
    have hstarted : st.suffixStarted = true := h.suffixStarted
    have hstart := h.suffixStart
    rw [if_neg (List.cons_ne_nil c after)] at hstart
    rw [hstarted, if_pos rfl]
    exact
      { idx := h.idx_concat ch
        prefixEnd := h.prefixEnd
        removedChars := h.removedChars
        suffixStart := by rw [if_neg hconcat]; exact hstart
        suffixStarted := rfl
        fits := h.fits
        past := fun _ => hpast
        tail := fun _ => h.tail (List.cons_ne_nil c after) }

theorem remove (h : Seen beginningBytes tailStartTarget len before removed after st)
    (hpast : beginningBytes < st.idx + ch.utf8Size) (htail : st.idx < tailStartTarget) :
    after = [] ∧
      Seen beginningBytes tailStartTarget len before (removed ++ [ch]) []
        (splitStep beginningBytes tailStartTarget st ch) := by
  obtain rfl : after = [] := by
    by_contra hne
    have htail' := h.tail hne
    have hidx := h.idx
    rw [byteLength_append] at hidx
    omega
  refine ⟨rfl, ?_⟩
  have hidx : st.idx + ch.utf8Size = byteLength (before ++ (removed ++ [ch]) ++ []) := by
    rw [h.idx_concat ch, List.nil_append, List.append_nil, List.append_assoc]
  rw [splitStep, if_neg (Nat.not_le_of_lt hpast), if_neg (Nat.not_le_of_lt htail)]
  exact
    { idx := hidx
      prefixEnd := h.prefixEnd
      removedChars := by
        rw [List.length_append, List.length_singleton, ← h.removedChars]
      suffixStart := h.suffixStart
      suffixStarted := h.suffixStarted
      fits := h.fits
      past := fun _ => hpast
      tail := fun hne => absurd rfl hne }

/-- **The pass reads a text.** -/
theorem foldl (h : Seen beginningBytes tailStartTarget len before removed after st)
    (s : List Char) :
    ∃ before' removed' after',
      before' ++ removed' ++ after' = before ++ removed ++ after ++ s ∧
      Seen beginningBytes tailStartTarget len before' removed' after'
        (s.foldl (splitStep beginningBytes tailStartTarget) st) := by
  induction s generalizing before removed after st with
  | nil => exact ⟨before, removed, after, (List.append_nil _).symm, h⟩
  | cons ch s ih =>
    rw [List.foldl_cons]
    rcases Nat.lt_or_ge beginningBytes (st.idx + ch.utf8Size) with hpast | hfits
    · rcases Nat.lt_or_ge st.idx tailStartTarget with hbefore | htail
      · obtain ⟨rfl, hnext⟩ := h.remove hpast hbefore
        obtain ⟨before', removed', after', heq, hseen⟩ := ih hnext
        exact ⟨before', removed', after', by rw [heq]; simp, hseen⟩
      · obtain ⟨before', removed', after', heq, hseen⟩ := ih (h.finish hpast htail)
        exact ⟨before', removed', after', by rw [heq]; simp, hseen⟩
    · obtain ⟨rfl, rfl, hnext⟩ := h.begin hfits
      obtain ⟨before', removed', after', heq, hseen⟩ := ih hnext
      exact ⟨before', removed', after', by rw [heq]; simp, hseen⟩

end Seen

/-- **The middle is cut out of a text**: what is left in front and behind fits, the two are cut
where characters end, and the characters between them are counted. -/
theorem splitString_eq (s : List Char) (beginningBytes endBytes : ℕ) :
    ∃ before removed after, s = before ++ removed ++ after ∧
      splitString s beginningBytes endBytes = some (removed.length, before, after) ∧
      byteLength before ≤ beginningBytes ∧ byteLength after ≤ endBytes := by
  rw [splitString]
  split_ifs with hs
  · exact ⟨[], [], [], hs, rfl, Nat.zero_le _, Nat.zero_le _⟩
  · have hinitial : Seen beginningBytes (byteLength s - endBytes) (byteLength s) [] [] []
        { suffixStart := byteLength s } :=
      { idx := rfl
        prefixEnd := rfl
        removedChars := rfl
        suffixStart := rfl
        suffixStarted := rfl
        fits := Nat.zero_le _
        past := fun hne => absurd rfl hne
        tail := fun hne => absurd rfl hne }
    obtain ⟨before, removed, after, heq, hseen⟩ := hinitial.foldl s
    rw [List.append_nil, List.append_nil, List.nil_append] at heq
    refine ⟨before, removed, after, heq.symm, ?_, hseen.fits, ?_⟩
    · -- both offsets are at the ends of characters
      have hstart : (s.foldl (splitStep beginningBytes (byteLength s - endBytes))
          { suffixStart := byteLength s }).suffixStart = byteLength (before ++ removed) := by
        rw [hseen.suffixStart]
        split_ifs with hafter
        · rw [← heq, hafter, List.append_nil]
        · rfl
      have hle : byteLength before ≤ byteLength (before ++ removed) := by
        rw [byteLength_append]
        exact Nat.le_add_right _ _
      have hbefore : splitAtByte (byteLength before) s = some (before, removed ++ after) := by
        rw [← heq, List.append_assoc]
        exact splitAtByte_append before (removed ++ after)
      have hafter : splitAtByte (byteLength (before ++ removed)) s =
          some (before ++ removed, after) := by
        rw [← heq]
        exact splitAtByte_append (before ++ removed) after
      dsimp only
      rw [hstart, hseen.prefixEnd, hseen.removedChars, if_neg (Nat.not_lt_of_le hle), hbefore,
        Option.bind_some, hafter]
      rfl
    · cases hafter : after with
      | nil => exact Nat.zero_le _
      | cons c rest =>
        have htail := hseen.tail (by rw [hafter]; exact List.cons_ne_nil c rest)
        have hlength := congrArg byteLength heq
        rw [byteLength_append] at hlength
        rw [← hafter]
        omega

/-! ### A text that costs too much -/

/-- What stands for the characters that were cut out of a text: their number, or an estimate of
the tokens the text is too long by. -/
def TruncationPolicy.marker (text : String) (removed : List Char) : TruncationPolicy → String
  | .bytes _ => formatTruncationMarker false removed.length
  | .tokens n =>
    formatTruncationMarker true
      (approxTokensFromByteCount (text.utf8ByteSize - approxBytesForTokens n))

/-- **What is left of a text that is cut**: a beginning of at most half of the bytes, a marker, and
an end of at most the others. -/
def IsSnippet (policy : TruncationPolicy) (text snippet : String) : Prop :=
  ∃ before removed after, text.toList = before ++ removed ++ after ∧
    snippet.toList = before ++ (policy.marker text removed).toList ++ after ∧
    byteLength before ≤ policy.byteBudget / 2 ∧
    byteLength after ≤ policy.byteBudget - policy.byteBudget / 2

theorem exists_truncateWithByteEstimate {s : String} {maxBytes : ℕ} (hpos : 0 < maxBytes)
    (hlong : maxBytes < s.utf8ByteSize) (useTokens : Bool) :
    ∃ before removed after, s.toList = before ++ removed ++ after ∧
      truncateWithByteEstimate s maxBytes useTokens =
        some (String.ofList (before ++ (formatTruncationMarker useTokens
          (removedUnits useTokens (s.utf8ByteSize - maxBytes) removed.length)).toList ++ after)) ∧
      byteLength before ≤ maxBytes / 2 ∧ byteLength after ≤ maxBytes - maxBytes / 2 := by
  obtain ⟨before, removed, after, heq, hsplit, hbefore, hafter⟩ :=
    splitString_eq s.toList (maxBytes / 2) (maxBytes - maxBytes / 2)
  have hne : s ≠ "" := by
    rintro rfl
    exact absurd hlong (Nat.not_lt_zero maxBytes)
  refine ⟨before, removed, after, heq, ?_, hbefore, hafter⟩
  rw [truncateWithByteEstimate, if_neg hne, if_neg hpos.ne', if_neg (Nat.not_le_of_lt hlong)]
  dsimp only [splitBudget]
  rw [hsplit]
  rfl

variable {policy : TruncationPolicy}

/-- **A text that costs more than the budget is cut.** -/
theorem exists_truncateText {text : String} {remaining : ℕ} (hpos : 0 < remaining)
    (hcost : remaining < policy.textCost text) :
    ∃ snippet, truncateText text (policy.withBudget remaining) = some snippet ∧
      IsSnippet (policy.withBudget remaining) text snippet := by
  cases policy with
  | bytes n =>
    obtain ⟨before, removed, after, heq, htruncate, hbefore, hafter⟩ :=
      exists_truncateWithByteEstimate hpos hcost false
    exact ⟨_, htruncate, before, removed, after, heq, String.toList_ofList, hbefore, hafter⟩
  | tokens n =>
    have hlong : approxBytesForTokens remaining < text.utf8ByteSize := by
      have hcost' : remaining < (text.utf8ByteSize + (4 - 1)) / 4 := hcost
      have hbytes : approxBytesForTokens remaining ≤ remaining * 4 := Nat.min_le_left _ _
      omega
    have hbudget : 0 < approxBytesForTokens remaining := by
      rw [approxBytesForTokens, approxBytesPerToken, U64.maxValue]
      omega
    obtain ⟨before, removed, after, heq, htruncate, hbefore, hafter⟩ :=
      exists_truncateWithByteEstimate hbudget hlong true
    refine ⟨_, ?_, before, removed, after, heq, String.toList_ofList, hbefore, hafter⟩
    have hne : text ≠ "" := by
      rintro rfl
      exact absurd hlong (Nat.not_lt_zero _)
    rw [TruncationPolicy.withBudget, truncateText, truncateMiddleWithTokenBudget, if_neg hne,
      if_neg fun h => absurd h.2 (Nat.not_le_of_lt hlong), htruncate]
    simp only [Option.map_some]
    split_ifs
    · rfl
    · rfl

theorem toList_formatTruncationMarker_ne_nil (useTokens : Bool) (removedCount : ℕ) :
    (formatTruncationMarker useTokens removedCount).toList ≠ [] := by
  rw [formatTruncationMarker]
  split_ifs
  · rw [String.toList_append, String.toList_append]
    simp
  · rw [String.toList_append, String.toList_append]
    simp

theorem IsSnippet.ne_empty (h : IsSnippet policy text snippet) : snippet ≠ "" := by
  obtain ⟨before, removed, after, -, hsnippet, -, -⟩ := h
  rintro rfl
  have hmarker : (policy.marker text removed).toList = [] := by
    have hnil := (List.append_eq_nil_iff.mp hsnippet.symm).1
    exact (List.append_eq_nil_iff.mp hnil).2
  cases policy with
  | bytes n => exact toList_formatTruncationMarker_ne_nil _ _ hmarker
  | tokens n => exact toList_formatTruncationMarker_ne_nil _ _ hmarker

/-! ### What becomes of the items -/

/-- What becomes of an item. -/
inductive Fate where
  | whole
  | cut (snippet : String)
  | omitted
  deriving DecidableEq

/-- An item and what becomes of it. -/
abbrev Fated := FunctionCallOutputContentItem × Fate

/-- What the output shows for an item. -/
def shown : Fated → Option FunctionCallOutputContentItem
  | (item, .whole) => some item
  | (_, .cut snippet) => some (.inputText snippet)
  | (_, .omitted) => none

def isCut : Fated → Bool
  | (_, .cut _) => true
  | _ => false

def isOmittedText : Fated → Bool
  | (.inputText _, .omitted) => true
  | _ => false

def isOmittedAudio : Fated → Bool
  | (.inputAudio _, .omitted) => true
  | _ => false

section Fates

variable (policy : TruncationPolicy) (estimateAudioTokenCount : String → ℕ)

/-- What an item costs. -/
def itemCost : FunctionCallOutputContentItem → ℕ
  | .inputText text => policy.textCost text
  | .inputAudio audioUrl => policy.audioCost (estimateAudioTokenCount audioUrl)
  | .inputImage _ _ | .encryptedContent _ => 0

/-- What was paid for an item that is shown as a whole. -/
def paid : Fated → ℕ
  | (item, .whole) => itemCost policy estimateAudioTokenCount item
  | _ => 0

/-- What was paid for these items. -/
def spent (fates : List Fated) : ℕ := (fates.map (paid policy estimateAudioTokenCount)).sum

/-- What is left of the budget after these items. A text that is cut takes the rest. -/
def remainingAfter (fates : List Fated) : ℕ :=
  if fates.any isCut then 0 else policy.budget - spent policy estimateAudioTokenCount fates

/-- **The fate of an item**, after those before it. Images and encrypted content are shown. Audio
is shown if what is left pays for it. A text is shown if something is left that pays for it, cut
if what is left does not, and omitted if nothing is left. -/
def IsFate (earlier : List Fated) : Fated → Prop
  | (.inputImage _ _, fate) | (.encryptedContent _, fate) => fate = .whole
  | (.inputAudio audioUrl, fate) =>
    fate = if policy.audioCost (estimateAudioTokenCount audioUrl) ≤
        remainingAfter policy estimateAudioTokenCount earlier then .whole else .omitted
  | (.inputText text, fate) =>
    let remaining := remainingAfter policy estimateAudioTokenCount earlier
    if remaining = 0 then fate = .omitted
    else if policy.textCost text ≤ remaining then fate = .whole
    else ∃ snippet, fate = .cut snippet ∧ IsSnippet (policy.withBudget remaining) text snippet

/-- **What the loop carries** says what became of the items it has read. -/
structure Carries (fates : List Fated) (st : OutputState) : Prop where
  out : st.out = fates.filterMap shown
  remaining : st.remainingBudget = remainingAfter policy estimateAudioTokenCount fates
  texts : st.omittedTextItems = fates.countP isOmittedText
  audio : st.omittedAudioItems = fates.countP isOmittedAudio
  within : spent policy estimateAudioTokenCount fates ≤ policy.budget
  cut : fates.countP isCut ≤ 1
  each : ListEdit.AtEach (IsFate policy estimateAudioTokenCount) fates

variable {policy estimateAudioTokenCount}

theorem spent_concat (fates : List Fated) (fated : Fated) :
    spent policy estimateAudioTokenCount (fates ++ [fated]) =
      spent policy estimateAudioTokenCount fates + paid policy estimateAudioTokenCount fated := by
  rw [spent, spent, List.map_append, List.sum_append, List.map_singleton, List.sum_singleton]

theorem remainingAfter_concat {fates : List Fated} {fated : Fated} (h : isCut fated = false) :
    remainingAfter policy estimateAudioTokenCount (fates ++ [fated]) =
      remainingAfter policy estimateAudioTokenCount fates -
        paid policy estimateAudioTokenCount fated := by
  rw [remainingAfter, remainingAfter, List.any_append, spent_concat]
  simp only [List.any_cons, List.any_nil, h, Bool.or_false]
  split_ifs
  · rw [Nat.zero_sub]
  · rw [Nat.sub_sub]

namespace Carries

variable {fates : List Fated} {st : OutputState} {item : FunctionCallOutputContentItem}

theorem whole (h : Carries policy estimateAudioTokenCount fates st)
    (hpays : itemCost policy estimateAudioTokenCount item ≤ st.remainingBudget)
    (hfate : IsFate policy estimateAudioTokenCount fates (item, .whole)) :
    Carries policy estimateAudioTokenCount (fates ++ [(item, .whole)])
      { st with
        out := st.out ++ [item]
        remainingBudget := st.remainingBudget - itemCost policy estimateAudioTokenCount item } := by
  have htext : isOmittedText (item, .whole) = false := by cases item <;> rfl
  have haudio : isOmittedAudio (item, .whole) = false := by cases item <;> rfl
  refine ⟨?_, ?_, ?_, ?_, ?_, ?_, h.each.concat hfate⟩
  · rw [List.filterMap_append, ← h.out]
    rfl
  · rw [remainingAfter_concat rfl, ← h.remaining]
    rfl
  · rw [List.countP_append, List.countP_singleton, htext, ← h.texts]
    rfl
  · rw [List.countP_append, List.countP_singleton, haudio, ← h.audio]
    rfl
  · -- what is left is what was not spent, or nothing
    have hpays' := hpays
    rw [h.remaining, remainingAfter] at hpays'
    rw [spent_concat]
    have hwithin := h.within
    have hpaid : paid policy estimateAudioTokenCount (item, .whole) =
        itemCost policy estimateAudioTokenCount item := rfl
    split_ifs at hpays' <;> omega
  · rw [List.countP_append, List.countP_singleton]
    exact h.cut

theorem leftOut (h : Carries policy estimateAudioTokenCount fates st)
    (hfate : IsFate policy estimateAudioTokenCount fates (item, .omitted)) :
    Carries policy estimateAudioTokenCount (fates ++ [(item, .omitted)])
      { st with
        omittedTextItems := st.omittedTextItems + (isOmittedText (item, .omitted)).toNat
        omittedAudioItems := st.omittedAudioItems + (isOmittedAudio (item, .omitted)).toNat } := by
  refine ⟨?_, ?_, ?_, ?_, ?_, ?_, h.each.concat hfate⟩
  · rw [List.filterMap_append, ← h.out]
    exact (List.append_nil _).symm
  · rw [remainingAfter_concat rfl, ← h.remaining]
    rfl
  · rw [List.countP_append, List.countP_singleton, ← h.texts]
    cases isOmittedText (item, .omitted) <;> rfl
  · rw [List.countP_append, List.countP_singleton, ← h.audio]
    cases isOmittedAudio (item, .omitted) <;> rfl
  · rw [spent_concat]
    exact h.within
  · rw [List.countP_append, List.countP_singleton]
    exact h.cut

/-- A text is cut, for which something has to be left: it is the first. -/
theorem cutText (h : Carries policy estimateAudioTokenCount fates st)
    (hleft : st.remainingBudget ≠ 0)
    (hfate : IsFate policy estimateAudioTokenCount fates (.inputText text, .cut snippet)) :
    Carries policy estimateAudioTokenCount (fates ++ [(.inputText text, .cut snippet)])
      { st with out := st.out ++ [.inputText snippet], remainingBudget := 0 } := by
  have hnone : fates.any isCut = false := by
    rw [h.remaining, remainingAfter] at hleft
    split_ifs at hleft with hcut
    · exact absurd rfl hleft
    · exact Bool.eq_false_iff.mpr hcut
  refine ⟨?_, ?_, ?_, ?_, ?_, ?_, h.each.concat hfate⟩
  · rw [List.filterMap_append, ← h.out]
    rfl
  · rw [remainingAfter, List.any_append]
    simp [isCut]
  · rw [List.countP_append, List.countP_singleton, ← h.texts]
    rfl
  · rw [List.countP_append, List.countP_singleton, ← h.audio]
    rfl
  · rw [spent_concat]
    exact h.within
  · have hzero : fates.countP isCut = 0 := by
      rw [List.countP_eq_zero]
      intro fated hmem hcut
      exact absurd (List.any_eq_true.mpr ⟨fated, hmem, hcut⟩)
        (by rw [hnone]; exact Bool.false_ne_true)
    rw [List.countP_append, hzero, List.countP_singleton]
    exact le_rfl

/-- **The loop reads an item.** -/
theorem step (h : Carries policy estimateAudioTokenCount fates st)
    (item : FunctionCallOutputContentItem) :
    ∃ fate st', truncateItem policy estimateAudioTokenCount st item = some st' ∧
      Carries policy estimateAudioTokenCount (fates ++ [(item, fate)]) st' := by
  cases item with
  | inputText text =>
    rw [truncateItem]
    split_ifs with hnone hpays
    · refine ⟨.omitted, _, rfl, h.leftOut ?_⟩
      rw [h.remaining] at hnone
      rw [IsFate, if_pos hnone]
    · refine ⟨.whole, _, rfl, h.whole hpays ?_⟩
      rw [h.remaining] at hnone hpays
      rw [IsFate, if_neg hnone, if_pos hpays]
    · obtain ⟨snippet, htruncate, hsnippet⟩ :=
        exists_truncateText (Nat.pos_of_ne_zero hnone) (Nat.lt_of_not_le hpays)
      refine ⟨.cut snippet, _, by rw [htruncate]; rfl, ?_⟩
      rw [OutputState.cut, if_neg hsnippet.ne_empty]
      refine h.cutText hnone ?_
      rw [h.remaining] at hnone hpays hsnippet
      rw [IsFate, if_neg hnone, if_neg hpays]
      exact ⟨snippet, rfl, hsnippet⟩
  | inputImage imageUrl detail => exact ⟨.whole, _, rfl, h.whole (Nat.zero_le _) rfl⟩
  | inputAudio audioUrl =>
    rw [truncateItem]
    split_ifs with hpays
    · refine ⟨.whole, _, rfl, h.whole hpays ?_⟩
      rw [h.remaining] at hpays
      exact (if_pos hpays).symm
    · refine ⟨.omitted, _, rfl, h.leftOut ?_⟩
      rw [h.remaining] at hpays
      exact (if_neg hpays).symm
  | encryptedContent encryptedContent => exact ⟨.whole, _, rfl, h.whole (Nat.zero_le _) rfl⟩

/-- **The loop reads the items.** -/
theorem foldlM (h : Carries policy estimateAudioTokenCount fates st)
    (items : List FunctionCallOutputContentItem) :
    ∃ fates' st', items.foldlM (truncateItem policy estimateAudioTokenCount) st = some st' ∧
      fates'.map Prod.fst = fates.map Prod.fst ++ items ∧
      Carries policy estimateAudioTokenCount fates' st' := by
  induction items generalizing fates st with
  | nil => exact ⟨fates, st, rfl, (List.append_nil _).symm, h⟩
  | cons item items ih =>
    obtain ⟨fate, next, hstep, hnext⟩ := h.step item
    obtain ⟨fates', st', hrun, hitems, hcarries⟩ := ih hnext
    refine ⟨fates', st', ?_, ?_, hcarries⟩
    · rw [List.foldlM_cons, hstep]
      exact hrun
    · rw [hitems, List.map_append, List.append_assoc]
      rfl

end Carries

/-- **Truncated outputs respect the budget.** Every item has a fate, and the output shows the
items in their order, followed by the exact counts of the texts and of the audio that were
omitted. What is shown as a whole is paid for by the budget, at most one text is cut, and each
item has the fate that what is left after those before it allows. -/
theorem truncated_output_respects_budget (items : List FunctionCallOutputContentItem)
    (policy : TruncationPolicy) (estimateAudioTokenCount : String → ℕ) :
    ∃ fates : List Fated, fates.map Prod.fst = items ∧
      truncateFunctionOutputItemsWithPolicy policy estimateAudioTokenCount items =
        some (fates.filterMap shown ++
          omissions (fates.countP isOmittedText) (fates.countP isOmittedAudio)) ∧
      spent policy estimateAudioTokenCount fates ≤ policy.budget ∧
      fates.countP isCut ≤ 1 ∧
      ∀ earlier fated later, fates = earlier ++ fated :: later →
        IsFate policy estimateAudioTokenCount earlier fated := by
  have hinitial : Carries policy estimateAudioTokenCount [] { remainingBudget := policy.budget } :=
    { out := rfl
      remaining := rfl
      texts := rfl
      audio := rfl
      within := Nat.zero_le _
      cut := Nat.zero_le _
      each := ListEdit.atEach_nil _ }
  obtain ⟨fates, st, hrun, hitems, hcarries⟩ := hinitial.foldlM items
  refine ⟨fates, hitems, ?_, hcarries.within, hcarries.cut, hcarries.each⟩
  rw [truncateFunctionOutputItemsWithPolicy, hrun, hcarries.out.symm, ← hcarries.texts,
    ← hcarries.audio]
  rfl

end Fates

example :
    truncateFunctionOutputItemsWithPolicy (.bytes 2) (fun _ => 1)
        [.inputText "abcdefgh", .encryptedContent "enc_opaque", .inputAudio "audio:one"] =
      some [.inputText "a…6 chars truncated…h", .encryptedContent "enc_opaque",
        .inputText "[omitted 1 audio items ...]"] := by
  decide +kernel

/-- **An empty text is omitted when nothing is left**, although it costs nothing: the two texts cost
two bytes together, of a budget of two. -/
theorem empty_text_is_omitted :
    (TruncationPolicy.bytes 2).textCost "ab" + (TruncationPolicy.bytes 2).textCost "" ≤
        (TruncationPolicy.bytes 2).budget ∧
      truncateFunctionOutputItemsWithPolicy (.bytes 2) (fun _ => 0)
          [.inputText "ab", .inputText ""] =
        some [.inputText "ab", .inputText "[omitted 1 text items ...]"] := by
  decide +kernel

end Rivloom.Output
