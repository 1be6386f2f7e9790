import Rivloom.Lib.ListEdit
import Rivloom.Session.ResponseItem

/-!
# Calls and outputs

A model that is shown a call without an output, or an output without a call, refuses the
whole prompt. Before a history is sent it is normalized: a call whose output is missing is
given one, directly behind it (`Rivloom.Session.ensureCallOutputsPresent`), and an output
whose call is missing is left out (`Rivloom.Session.removeOrphanOutputs`). And when the
oldest item is dropped to make room, the counterpart of it goes too
(`Rivloom.Session.removeCorrespondingFor`). What the model cannot look at or listen to is
replaced by a text (`Rivloom.Session.stripImagesWhenUnsupported`).

Calls and outputs are matched by an id, and there are three kinds of them whose ids have
nothing to do with each other (`Rivloom.Session.CallKind`): local shell calls are answered
like function calls. A tool search that the server has made needs no call.
-/

namespace Rivloom.Session

variable {ρ : Type} {item : ResponseItem ρ} {out : ResponseItemEnvelope ρ} {callId : String}

/-- **The kinds of calls**, each with ids of its own. -/
inductive CallKind where
  | function
  | toolSearch
  | customTool
  deriving DecidableEq

namespace ResponseItem

/-- The id of a call. -/
def call? : ResponseItem ρ → Option (CallKind × String)
  | .functionCall _ callId _ _ => some (.function, callId)
  | .localShellCall _ (some callId) _ _ => some (.function, callId)
  | .toolSearchCall _ (some callId) _ _ => some (.toolSearch, callId)
  | .customToolCall _ callId _ _ => some (.customTool, callId)
  | _ => none

/-- The id of the call that an output answers. -/
def output? : ResponseItem ρ → Option (CallKind × String)
  | .functionCallOutput _ (some callId) _ _ _ _ => some (.function, callId)
  | .toolSearchOutput _ (some callId) _ _ _ _ => some (.toolSearch, callId)
  | .customToolCallOutput _ callId _ _ _ => some (.customTool, callId)
  | _ => none

/-- The id of the item itself, if it is a call. -/
def callItemId : ResponseItem ρ → Option String
  | .functionCall id _ _ _ => id
  | .localShellCall id _ _ _ => id
  | .toolSearchCall id _ _ _ => id
  | .customToolCall id _ _ _ => id
  | _ => none

/-- What a tool search found that the server has made. -/
def isServerExecuted : ResponseItem ρ → Bool
  | .toolSearchOutput _ _ _ execution _ _ => execution == "server"
  | _ => false

end ResponseItem

/-! ### Missing outputs -/

section Missing

-- `Uuid::new_v5` in the namespace of synthetic outputs
variable (newV5 : String → String)

/-- The id of a synthetic output, derived from that of the call. -/
def syntheticOutputId (tag : String) (itemId : Option String) : Option String :=
  (itemId.filter (· ≠ "")).map fun sourceId => tag ++ "_" ++ newV5 (tag ++ ":" ++ sourceId)

/-- The output that a call without one is given. -/
def syntheticOutput (kind : CallKind) (itemId : Option String) (callId : String) :
    ResponseItem ρ :=
  match kind with
  | .function => .functionCallOutput (syntheticOutputId newV5 "fco" itemId) (some callId) none none
      (.fromText "aborted") none
  | .toolSearch => .toolSearchOutput (syntheticOutputId newV5 "tso" itemId) (some callId)
      "completed" "client" [] none
  | .customTool => .customToolCallOutput (syntheticOutputId newV5 "ctco" itemId) callId none
      (.fromText "aborted") none

/-- The ids that outputs of a kind answer. -/
def outputIds (kind : CallKind) (items : List (ResponseItemEnvelope ρ)) : List String :=
  items.filterMap fun envelope =>
    envelope.item.output?.bind fun (k, callId) => if k = kind then some callId else none

/-- The output to be inserted behind an item, if it is a call without one. -/
def missingOutput (items : List (ResponseItemEnvelope ρ)) (envelope : ResponseItemEnvelope ρ) :
    Option (ResponseItemEnvelope ρ) :=
  match envelope.item.call? with
  | some (kind, callId) =>
    if callId ∈ outputIds kind items then none
    else some ⟨syntheticOutput newV5 kind envelope.item.callItemId callId, none⟩
  | none => none

/-- **Every call is given an output.** -/
def ensureCallOutputsPresent (items : List (ResponseItemEnvelope ρ)) :
    List (ResponseItemEnvelope ρ) :=
  ListEdit.insertAfter items (ListEdit.collect (missingOutput newV5 items) items 0)

end Missing

/-! ### Orphans -/

/-- The ids of the calls of a kind. -/
def callIds (kind : CallKind) (items : List (ResponseItemEnvelope ρ)) : List String :=
  items.filterMap fun envelope =>
    envelope.item.call?.bind fun (k, callId) => if k = kind then some callId else none

/-- An output without a call, unless the server has made the tool search. -/
def isOrphan (items : List (ResponseItemEnvelope ρ)) (envelope : ResponseItemEnvelope ρ) : Bool :=
  match envelope.item.output? with
  | some (kind, callId) => !envelope.item.isServerExecuted && !decide (callId ∈ callIds kind items)
  | none => false

/-- **Outputs without a call are left out.** -/
def removeOrphanOutputs (items : List (ResponseItemEnvelope ρ)) : List (ResponseItemEnvelope ρ) :=
  let orphanPositions := ListEdit.positionsOf (isOrphan items) items 0
  if orphanPositions = [] then items else ListEdit.retain orphanPositions 0 items

/-! ### Counterparts -/

/-- `remove_first_matching`. -/
def removeFirstMatching (items : List (ResponseItemEnvelope ρ))
    (matchesItem : ResponseItem ρ → Bool) : List (ResponseItemEnvelope ρ) :=
  items.eraseP fun envelope => matchesItem envelope.item

def isFunctionCall (callId : String) : ResponseItem ρ → Bool
  | .functionCall _ existing _ _ => existing == callId
  | _ => false

def isLocalShellCall (callId : String) : ResponseItem ρ → Bool
  | .localShellCall _ (some existing) _ _ => existing == callId
  | _ => false

/-- **The counterpart of an item is removed.** -/
def removeCorrespondingFor (items : List (ResponseItemEnvelope ρ)) (item : ResponseItem ρ) :
    List (ResponseItemEnvelope ρ) :=
  match item with
  | .functionCallOutput _ (some callId) _ _ _ _ =>
    -- a function call is looked for first, and only then a local shell call
    if items.any fun envelope => isFunctionCall callId envelope.item then
      removeFirstMatching items (isFunctionCall callId)
    else removeFirstMatching items (isLocalShellCall callId)
  | item =>
    match item.call?, item.output? with
    | some pair, _ => removeFirstMatching items fun i => i.output? == some pair
    | none, some pair => removeFirstMatching items fun i => i.call? == some pair
    | none, none => items

/-! ### Media -/

inductive InputModality where
  | text
  | image
  | audio
  deriving DecidableEq

/-- `UnsupportedMedia`: the text that stands for what is left out, and its kind. -/
structure UnsupportedMedia where
  text : String
  contentKind : String

def UnsupportedMedia.image : UnsupportedMedia :=
  ⟨"image content omitted because you do not support image input", "images.unsupported"⟩

def UnsupportedMedia.audio : UnsupportedMedia :=
  ⟨"audio content omitted because you do not support audio input", "audio.unsupported"⟩

section Strip

variable (media : UnsupportedMedia) (inMessage : ContentItem → Bool)
  (inOutput : FunctionCallOutputContentItem → Bool)

/-- The parts of a message that are not supported are replaced. -/
def stripMessage (item : ResponseItem ρ) : ResponseItem ρ :=
  (item.toAnnotatedContent.bind fun content => item.setAnnotatedContent (content.map fun part =>
    if inMessage part.1 then (.inputText media.text, media.contentKind) else part)).getD item

/-- The parts of an output that are not supported are replaced. -/
def stripOutput (output : FunctionCallOutputPayload) : FunctionCallOutputPayload :=
  match output.body with
  | .text _ => output
  | .contentItems items =>
    { output with body := .contentItems (items.map fun part =>
        if inOutput part then .inputText media.text else part) }

/-- What both kinds of media have in common. -/
def stripMedia : ResponseItem ρ → ResponseItem ρ
  | .message id role content phase metadata =>
    stripMessage media inMessage (.message id role content phase metadata)
  | .functionCallOutput id callId name namespaceName output metadata =>
    .functionCallOutput id callId name namespaceName (stripOutput media inOutput output) metadata
  | .customToolCallOutput id callId name output metadata =>
    .customToolCallOutput id callId name (stripOutput media inOutput output) metadata
  | item => item

end Strip

def ContentItem.isImage : ContentItem → Bool
  | .inputImage _ _ => true
  | _ => false

def ContentItem.isAudio : ContentItem → Bool
  | .inputAudio _ => true
  | _ => false

def FunctionCallOutputContentItem.isImage : FunctionCallOutputContentItem → Bool
  | .inputImage _ _ => true
  | _ => false

def FunctionCallOutputContentItem.isAudio : FunctionCallOutputContentItem → Bool
  | .inputAudio _ => true
  | _ => false

/-- Images are left out, and an image that was generated is cleared. -/
def stripImages : ResponseItem ρ → ResponseItem ρ
  | .imageGenerationCall rest _ metadata => .imageGenerationCall rest "" metadata
  | item => stripMedia .image ContentItem.isImage FunctionCallOutputContentItem.isImage item

def stripAudio (item : ResponseItem ρ) : ResponseItem ρ :=
  stripMedia .audio ContentItem.isAudio FunctionCallOutputContentItem.isAudio item

/-- One of the two passes over the items. -/
def stripWhenUnsupported (modality : InputModality) (strip : ResponseItem ρ → ResponseItem ρ)
    (inputModalities : List InputModality) (items : List (ResponseItemEnvelope ρ)) :
    List (ResponseItemEnvelope ρ) :=
  if modality ∈ inputModalities then items
  else items.map fun envelope => { envelope with item := strip envelope.item }

def stripImagesWhenUnsupported (inputModalities : List InputModality)
    (items : List (ResponseItemEnvelope ρ)) : List (ResponseItemEnvelope ρ) :=
  stripWhenUnsupported .image stripImages inputModalities items

def stripAudioWhenUnsupported (inputModalities : List InputModality)
    (items : List (ResponseItemEnvelope ρ)) : List (ResponseItemEnvelope ρ) :=
  stripWhenUnsupported .audio stripAudio inputModalities items

/-! ### Histories in which calls and outputs belong together -/

variable {items : List (ResponseItemEnvelope ρ)} {envelope : ResponseItemEnvelope ρ}
  {pair : CallKind × String} {newV5 : String → String} {kind : CallKind}

/-- There is a call with this id. -/
def HasCall (items : List (ResponseItemEnvelope ρ)) (pair : CallKind × String) : Prop :=
  ∃ envelope ∈ items, envelope.item.call? = some pair

/-- There is an output with this id. -/
def HasOutput (items : List (ResponseItemEnvelope ρ)) (pair : CallKind × String) : Prop :=
  ∃ envelope ∈ items, envelope.item.output? = some pair

theorem mem_ids {side : ResponseItem ρ → Option (CallKind × String)} :
    (callId ∈ items.filterMap fun envelope =>
      (side envelope.item).bind fun (k, id) => if k = kind then some id else none) ↔
    ∃ envelope ∈ items, side envelope.item = some (kind, callId) := by
  rw [List.mem_filterMap]
  refine exists_congr fun envelope => and_congr_right fun _ => ?_
  rw [Option.bind_eq_some_iff]
  constructor
  · rintro ⟨⟨k, id⟩, hside, hid⟩
    dsimp only at hid
    obtain ⟨rfl, hsame⟩ := Option.ite_none_right_eq_some.mp hid
    rw [hside, Option.some.inj hsame]
  · intro hside
    exact ⟨(kind, callId), hside, if_pos rfl⟩

theorem mem_callIds : callId ∈ callIds kind items ↔ HasCall items (kind, callId) := mem_ids

theorem mem_outputIds : callId ∈ outputIds kind items ↔ HasOutput items (kind, callId) := mem_ids

/-- **An output without a call**, unless the server has made the tool search. -/
def Orphan (items : List (ResponseItemEnvelope ρ)) (item : ResponseItem ρ) : Prop :=
  item.isServerExecuted = false ∧ ∃ pair, item.output? = some pair ∧ ¬ HasCall items pair

theorem isOrphan_iff : isOrphan items envelope = true ↔ Orphan items envelope.item := by
  rw [isOrphan, Orphan]
  cases envelope.item.output? with
  | none => simp
  | some pair =>
    rw [Bool.and_eq_true, Bool.not_eq_true', Bool.not_eq_true', decide_eq_false_iff_not,
      mem_callIds]
    simp

instance (items : List (ResponseItemEnvelope ρ)) (item : ResponseItem ρ) :
    Decidable (Orphan items item) :=
  decidable_of_iff (isOrphan items ⟨item, none⟩ = true) isOrphan_iff

theorem output?_eq_none_of_call? (h : item.call? = some pair) : item.output? = none := by
  cases item <;> first | rfl | cases h

theorem syntheticOutput_spec (kind : CallKind) (itemId : Option String) (callId : String) :
    (syntheticOutput newV5 kind itemId callId : ResponseItem ρ).output? = some (kind, callId) ∧
      (syntheticOutput newV5 kind itemId callId : ResponseItem ρ).call? = none ∧
      (syntheticOutput newV5 kind itemId callId : ResponseItem ρ).isServerExecuted = false := by
  cases kind with
  | function => exact ⟨rfl, rfl, rfl⟩
  | toolSearch => exact ⟨rfl, rfl, rfl⟩
  | customTool => exact ⟨rfl, rfl, rfl⟩

/-- **When an output is inserted**: the item is a call, and there is no output with its id. -/
theorem missingOutput_eq_some :
    missingOutput newV5 items envelope = some out ↔
      ∃ kind callId, envelope.item.call? = some (kind, callId) ∧
        ¬ HasOutput items (kind, callId) ∧
        out = ⟨syntheticOutput newV5 kind envelope.item.callItemId callId, none⟩ := by
  rw [missingOutput]
  constructor
  · intro h
    split at h
    · next kind callId hcall =>
      obtain ⟨hnot, hout⟩ := Option.ite_none_left_eq_some.mp h
      exact ⟨kind, callId, hcall, fun hout => hnot (mem_outputIds.mpr hout),
        (Option.some.inj hout).symm⟩
    · cases h
  · rintro ⟨kind, callId, hcall, hnot, rfl⟩
    rw [hcall]
    exact if_neg fun hmem => hnot (mem_outputIds.mp hmem)

theorem missingOutput_eq_none (h : ∀ pair, envelope.item.call? = some pair → HasOutput items pair) :
    missingOutput newV5 items envelope = none := by
  cases hmissing : missingOutput newV5 items envelope with
  | none => rfl
  | some out =>
    obtain ⟨kind, callId, hcall, hnot, -⟩ := missingOutput_eq_some.mp hmissing
    exact absurd (h _ hcall) hnot

theorem missingOutput_of_orphan (h : Orphan items envelope.item) :
    missingOutput newV5 items envelope = none := by
  obtain ⟨-, pair, hpair, -⟩ := h
  refine missingOutput_eq_none fun pair' hcall => ?_
  rw [output?_eq_none_of_call? hcall] at hpair
  cases hpair

theorem ensureCallOutputsPresent_eq (newV5 : String → String)
    (items : List (ResponseItemEnvelope ρ)) :
    ensureCallOutputsPresent newV5 items =
      items.flatMap fun envelope => envelope :: (missingOutput newV5 items envelope).toList :=
  ListEdit.insertAfter_collect _ items

theorem removeOrphanOutputs_eq (items : List (ResponseItemEnvelope ρ)) :
    removeOrphanOutputs items = items.filter fun envelope => !isOrphan items envelope := by
  have hretain := ListEdit.retain_positionsOf (isOrphan items) items 0
  rw [removeOrphanOutputs]
  split
  · next hnone => rw [← hretain, hnone, ListEdit.retain_nil]
  · exact hretain

theorem hasCall_ensure :
    HasCall (ensureCallOutputsPresent newV5 items) pair ↔ HasCall items pair := by
  rw [ensureCallOutputsPresent_eq]
  constructor
  · rintro ⟨envelope, hmem, hcall⟩
    obtain ⟨original, horiginal, hmem⟩ := List.mem_flatMap.mp hmem
    rcases List.mem_cons.mp hmem with rfl | hmem
    · exact ⟨envelope, horiginal, hcall⟩
    · obtain ⟨kind, callId, -, -, rfl⟩ :=
        missingOutput_eq_some.mp (Option.mem_toList.mp hmem)
      rw [(syntheticOutput_spec kind _ callId).2.1] at hcall
      cases hcall
  · rintro ⟨envelope, hmem, hcall⟩
    exact ⟨envelope, List.mem_flatMap.mpr ⟨envelope, hmem, List.mem_cons_self⟩, hcall⟩

theorem orphan_ensure : Orphan (ensureCallOutputsPresent newV5 items) item ↔ Orphan items item := by
  rw [Orphan, Orphan]
  simp only [hasCall_ensure]

/-- The items without orphans and with the outputs that were missing. -/
def paired (newV5 : String → String) (items : List (ResponseItemEnvelope ρ)) :
    List (ResponseItemEnvelope ρ) :=
  items.flatMap fun envelope =>
    if Orphan items envelope.item then []
    else envelope :: (missingOutput newV5 items envelope).toList

/-- **The two passes together.** -/
theorem removeOrphanOutputs_ensure (newV5 : String → String)
    (items : List (ResponseItemEnvelope ρ)) :
    removeOrphanOutputs (ensureCallOutputsPresent newV5 items) = paired newV5 items := by
  have hone : ∀ envelope ∈ items, (envelope :: (missingOutput newV5 items envelope).toList).filter
      (fun e => !isOrphan (ensureCallOutputsPresent newV5 items) e) =
        if Orphan items envelope.item then []
        else envelope :: (missingOutput newV5 items envelope).toList := by
    intro envelope hmem
    -- what is inserted has its call in front of it
    have hinserted : (missingOutput newV5 items envelope).toList.filter
        (fun e => !isOrphan (ensureCallOutputsPresent newV5 items) e) =
          (missingOutput newV5 items envelope).toList := by
      refine List.filter_eq_self.mpr fun out hout => ?_
      obtain ⟨kind, callId, hcall, -, rfl⟩ :=
        missingOutput_eq_some.mp (Option.mem_toList.mp hout)
      rw [Bool.not_eq_true', Bool.eq_false_iff, Ne, isOrphan_iff, orphan_ensure]
      rintro ⟨-, pair, hpair, hnot⟩
      rw [(syntheticOutput_spec kind _ callId).1] at hpair
      exact hnot (Option.some.inj hpair ▸ ⟨envelope, hmem, hcall⟩)
    by_cases horphan : Orphan items envelope.item
    · have hbool : (!isOrphan (ensureCallOutputsPresent newV5 items) envelope) = false := by
        rw [Bool.not_eq_false', isOrphan_iff, orphan_ensure]
        exact horphan
      rw [if_pos horphan, List.filter_cons, hbool, if_neg Bool.false_ne_true,
        missingOutput_of_orphan horphan]
      rfl
    · have hbool : (!isOrphan (ensureCallOutputsPresent newV5 items) envelope) = true := by
        rw [Bool.not_eq_true', Bool.eq_false_iff, Ne, isOrphan_iff, orphan_ensure]
        exact horphan
      rw [if_neg horphan, List.filter_cons, hbool, if_pos rfl, hinserted]
  rw [removeOrphanOutputs_eq]
  nth_rewrite 2 [ensureCallOutputsPresent_eq]
  rw [List.filter_flatMap, paired]
  exact List.flatMap_congr hone

/-- What is left: an item that is no orphan, or an output behind its call. -/
theorem mem_paired :
    out ∈ paired newV5 items ↔ ∃ envelope ∈ items, ¬ Orphan items envelope.item ∧
      (out = envelope ∨ missingOutput newV5 items envelope = some out) := by
  rw [paired, List.mem_flatMap]
  refine exists_congr fun envelope => and_congr_right fun _ => ?_
  split
  · next horphan => exact ⟨nofun, fun h => absurd horphan h.1⟩
  · next horphan => rw [List.mem_cons, Option.mem_toList, and_iff_right horphan]

theorem not_orphan_of_call (h : item.call? = some pair) : ¬ Orphan items item := by
  rintro ⟨-, pair', hpair, -⟩
  rw [output?_eq_none_of_call? h] at hpair
  cases hpair

theorem hasCall_paired : HasCall (paired newV5 items) pair ↔ HasCall items pair := by
  constructor
  · rintro ⟨out, hmem, hcall⟩
    obtain ⟨envelope, henvelope, -, rfl | hmissing⟩ := mem_paired.mp hmem
    · exact ⟨out, henvelope, hcall⟩
    · obtain ⟨kind, callId, -, -, rfl⟩ := missingOutput_eq_some.mp hmissing
      rw [(syntheticOutput_spec kind _ callId).2.1] at hcall
      cases hcall
  · rintro ⟨envelope, hmem, hcall⟩
    exact ⟨envelope, mem_paired.mpr ⟨envelope, hmem, not_orphan_of_call hcall, Or.inl rfl⟩, hcall⟩

/-- **Every call has an output.** -/
theorem hasOutput_paired (h : HasCall items pair) : HasOutput (paired newV5 items) pair := by
  by_cases hout : HasOutput items pair
  · obtain ⟨envelope, hmem, houtput⟩ := hout
    refine ⟨envelope, mem_paired.mpr ⟨envelope, hmem, ?_, Or.inl rfl⟩, houtput⟩
    rintro ⟨-, pair', hpair, hnot⟩
    rw [houtput] at hpair
    exact hnot (Option.some.inj hpair ▸ h)
  · obtain ⟨envelope, hmem, hcall⟩ := h
    obtain ⟨kind, callId⟩ := pair
    have hmissing : missingOutput newV5 items envelope =
        some ⟨syntheticOutput newV5 kind envelope.item.callItemId callId, none⟩ :=
      missingOutput_eq_some.mpr ⟨kind, callId, hcall, hout, rfl⟩
    exact ⟨_, mem_paired.mpr ⟨envelope, hmem, not_orphan_of_call hcall, Or.inr hmissing⟩,
      (syntheticOutput_spec kind _ callId).1⟩

/-- **Every output has a call**, unless the server has made the tool search. -/
theorem not_orphan_paired (h : out ∈ paired newV5 items) :
    ¬ Orphan (paired newV5 items) out.item := by
  rintro ⟨hserver, pair, hpair, hnot⟩
  rw [hasCall_paired] at hnot
  obtain ⟨envelope, hmem, horphan, rfl | hmissing⟩ := mem_paired.mp h
  · exact horphan ⟨hserver, pair, hpair, hnot⟩
  · obtain ⟨kind, callId, hcall, -, rfl⟩ := missingOutput_eq_some.mp hmissing
    rw [(syntheticOutput_spec kind _ callId).1] at hpair
    exact hnot (Option.some.inj hpair ▸ ⟨envelope, hmem, hcall⟩)

/-- **Nothing is left to be done a second time.** -/
theorem paired_paired (newV5 : String → String) (items : List (ResponseItemEnvelope ρ)) :
    paired newV5 (paired newV5 items) = paired newV5 items := by
  rw [paired]
  refine (List.flatMap_congr (g := fun envelope => [envelope]) fun envelope hmem => ?_).trans
    (List.flatMap_singleton' _)
  have hmissing : missingOutput newV5 (paired newV5 items) envelope = none := by
    refine missingOutput_eq_none fun pair hcall => ?_
    exact hasOutput_paired (hasCall_paired.mp ⟨envelope, hmem, hcall⟩)
  rw [if_neg (not_orphan_paired hmem), hmissing]
  rfl

/-! ### Trimming -/

/-- The two sides of a pair. -/
inductive Side where
  | call
  | output
  deriving DecidableEq

/-- What an item is to an id. -/
def side (pair : CallKind × String) (item : ResponseItem ρ) : Option Side :=
  if item.call? = some pair then some .call
  else if item.output? = some pair then some .output
  else none

/-- **The calls and outputs with an id**, in their order. -/
def sides (pair : CallKind × String) (items : List (ResponseItemEnvelope ρ)) : List Side :=
  items.filterMap fun envelope => side pair envelope.item

/-- **Every id of a kind has exactly one call and one later output.** -/
def WellPaired (items : List (ResponseItemEnvelope ρ)) : Prop :=
  ∀ pair, sides pair items = [] ∨ sides pair items = [.call, .output]

theorem side_of_call (h : item.call? = some pair) (other : CallKind × String) :
    side other item = if other = pair then some .call else none := by
  rw [side, h, output?_eq_none_of_call? h]
  by_cases hother : other = pair
  · rw [hother, if_pos rfl, if_pos rfl]
  · rw [if_neg fun heq => hother (Option.some.inj heq).symm, if_neg nofun, if_neg hother]

theorem side_of_output (h : item.output? = some pair) (other : CallKind × String) :
    side other item = if other = pair then some .output else none := by
  have hcall : item.call? = none := by
    cases hcall : item.call? with
    | none => rfl
    | some pair' => exact absurd (h.symm.trans (output?_eq_none_of_call? hcall)) nofun
  rw [side, h, hcall, if_neg nofun]
  by_cases hother : other = pair
  · rw [hother, if_pos rfl, if_pos rfl]
  · rw [if_neg fun heq => hother (Option.some.inj heq).symm, if_neg hother]

theorem side_of_neither (hcall : item.call? = none) (houtput : item.output? = none)
    (pair : CallKind × String) : side pair item = none := by
  rw [side, hcall, houtput, if_neg nofun, if_neg nofun]

theorem sides_cons (pair : CallKind × String) (envelope : ResponseItemEnvelope ρ)
    (items : List (ResponseItemEnvelope ρ)) :
    sides pair (envelope :: items) = (side pair envelope.item).toList ++ sides pair items := by
  rw [sides, List.filterMap_cons]
  cases side pair envelope.item with
  | none => rfl
  | some a => rfl

theorem sides_removeOutput (h : sides pair items = [.output]) (other : CallKind × String) :
    sides other (removeFirstMatching items fun i => i.output? == some pair) =
      if other = pair then [] else sides other items := by
  induction items with
  | nil => cases h
  | cons envelope items ih =>
    rw [sides_cons] at h
    rw [removeFirstMatching, List.eraseP_cons, sides_cons]
    by_cases houtput : envelope.item.output? = some pair
    · -- the output that is taken out
      rw [beq_iff_eq.mpr houtput, cond_true, side_of_output houtput]
      rw [side_of_output houtput, if_pos rfl] at h
      by_cases hother : other = pair
      · rw [hother, if_pos rfl]
        exact (List.cons.inj h).2
      · rw [if_neg hother, if_neg hother]
        rfl
    · rw [beq_eq_false_iff_ne.mpr houtput, cond_false, sides_cons]
      have hside : side pair envelope.item = none := by
        cases hcall : side pair envelope.item with
        | none => rfl
        | some a =>
          rw [hcall] at h
          obtain ⟨rfl, -⟩ := List.cons.inj h
          rw [side, if_neg houtput] at hcall
          split at hcall
          · cases hcall
          · cases hcall
      rw [hside] at h
      have hrest := ih h
      rw [removeFirstMatching] at hrest
      rw [hrest]
      by_cases hother : other = pair
      · rw [hother, if_pos rfl, if_pos rfl, hside]
        rfl
      · rw [if_neg hother, if_neg hother]

theorem removeCorrespondingFor_call (h : item.call? = some pair) :
    removeCorrespondingFor items item =
      removeFirstMatching items fun i => i.output? == some pair := by
  unfold removeCorrespondingFor
  split
  · cases h
  · rw [h]

theorem removeCorrespondingFor_neither (hcall : item.call? = none) (houtput : item.output? = none) :
    removeCorrespondingFor items item = items := by
  unfold removeCorrespondingFor
  split
  · cases houtput
  · rw [hcall, houtput]

/-- **The counterpart of the oldest item goes with it.** -/
theorem WellPaired.removeCorrespondingFor (h : WellPaired (envelope :: items)) :
    WellPaired (removeCorrespondingFor items envelope.item) := by
  intro other
  have hother := h other
  rw [sides_cons] at hother
  cases hcall : envelope.item.call? with
  | some pair =>
    have hpair := h pair
    rw [sides_cons, side_of_call hcall, if_pos rfl] at hpair
    have hrest : sides pair items = [.output] := (List.cons.inj (hpair.resolve_left nofun)).2
    rw [removeCorrespondingFor_call hcall, sides_removeOutput hrest]
    rw [side_of_call hcall] at hother
    split
    · exact Or.inl rfl
    · next hne =>
      rw [if_neg hne] at hother
      exact hother
  | none =>
    cases houtput : envelope.item.output? with
    | some pair =>
      -- an output cannot come first
      have hpair := h pair
      rw [sides_cons, side_of_output houtput, if_pos rfl] at hpair
      exact absurd (List.cons.inj (hpair.resolve_left nofun)).1 nofun
    | none =>
      rw [removeCorrespondingFor_neither hcall houtput]
      rw [side_of_neither hcall houtput] at hother
      exact hother

end Rivloom.Session
