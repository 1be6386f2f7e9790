import Rivloom.Lib.RustText
import Rivloom.Session.Normalize
import Rivloom.Session.WorldState

/-!
# The transcript of a thread

`Rivloom.Session.ContextManager` holds the history of a thread and what the model was told
last about its surroundings. Items are recorded at its end, outputs of tools truncated; the
history is replaced as a whole when it is compacted, cut at the end when turns are rolled
back, and shortened at the front when it becomes too long.

The prompt is the history with every call next to an output
(`Rivloom.Session.prompt_pairs_calls`). What the truncation leaves of an output, and which
texts are fragments of context and not the user's own words, are parameters.
-/

namespace Rivloom.Session

/-- The settings of a turn; the type `κ` is that of those that nothing here reads. -/
structure TurnContextItem (κ : Type) where
  turnId : Option String
  model : String
  compHash : Option String
  realtimeActive : Option Bool
  rest : κ
  deriving DecidableEq

/-- **The transcript of a thread.** -/
structure ContextManager (ρ κ ν : Type) where
  items : List (ResponseItemEnvelope ρ) := []
  historyVersion : ℕ := 0
  referenceContextItem : Option (TurnContextItem κ) := none
  worldStateBaseline : Option (WorldStateSnapshot ν) := none

variable {ρ κ ν : Type}

/-! ### Which messages begin a turn -/

/-- **Which texts are fragments of context**, instructions of another agent, or instructions on a
change of models. -/
structure FragmentTexts where
  contextualUser : String → Bool
  contextualDeveloper : String → Bool
  interAgent : String → Bool
  modelSwitch : String → Bool

namespace FragmentTexts

variable (texts : FragmentTexts)

def isContextualUserFragment : ContentItem → Bool
  | .inputText text => texts.contextualUser text
  | _ => false

def isContextualUserMessageContent (content : List ContentItem) : Bool :=
  content.any texts.isContextualUserFragment

def isContextualDevFragment : ContentItem → Bool
  | .inputText text => texts.contextualDeveloper text
  | _ => false

def isContextualDevMessageContent (content : List ContentItem) : Bool :=
  content.any texts.isContextualDevFragment

def hasNonContextualDevMessageContent (content : List ContentItem) : Bool :=
  content.any fun part => !texts.isContextualDevFragment part

def isInterAgentInstructionContent : List ContentItem → Bool
  | [.inputText text] => texts.interAgent text
  | [.outputText text] => texts.interAgent text
  | _ => false

/-- **An item that begins a turn**: a message of the user, or an instruction of another agent. -/
def isUserTurnBoundary : ResponseItem ρ → Bool
  | .agentMessage _ _ _ _ _ => true
  | .message _ role content _ _ =>
    (role == "user" && !texts.isContextualUserMessageContent content) ||
      (role == "assistant" && texts.isInterAgentInstructionContent content)
  | _ => false

end FragmentTexts

/-! ### The texts of the fragments -/

/-- The first bytes of a text, compared regardless of case. -/
def startsIgnoringCase (text marker : Text) : Bool :=
  toAsciiLowercase (text.take marker.length) = toAsciiLowercase marker

/-- The last bytes of a text, compared regardless of case. -/
def endsIgnoringCase (text marker : Text) : Bool :=
  toAsciiLowercase (text.drop (text.length - marker.length)) = toAsciiLowercase marker

/-- `matches_marked_text`. -/
def matchesMarkedText (startMarker endMarker : String) (text : Text) : Bool :=
  let trimmed := text.dropWhile isWhitespace
  startMarker ≠ "" && endMarker ≠ "" && startsIgnoringCase trimmed startMarker.toList &&
    endsIgnoringCase (trimEndChars trimmed) endMarker.toList

/-- `CONTEXTUAL_DEVELOPER_PREFIXES`. -/
def contextualDeveloperPrefixes : List String :=
  ["<permissions instructions>", "Approved command prefix saved:", "<model_switch>",
    "<managed_developer_instructions>", "<apps_instructions>", "<collaboration_mode>",
    "<multi_agent_role>", "<multi_agent_mode>", "<environments_instructions>",
    "<git_attribution>", "<plugins_instructions>", "<realtime_conversation>",
    "<skills_instructions>", "<tools>", "<personality_spec>", "<token_budget>",
    "<context_window>", "<context_window_guidance>", "<rollout_budget>"]

/-- `is_contextual_dev_fragment`, of a text. -/
def isContextualDevText (text : Text) : Bool :=
  contextualDeveloperPrefixes.any fun lead =>
    startsIgnoringCase (text.dropWhile isWhitespace) lead.toList

/-- The markers of the fragments of context that are written as messages of the user. -/
def contextualUserMarkers : List (String × String) :=
  [("# AGENTS.md instructions", "</INSTRUCTIONS>"),
    ("<environment_context>", "</environment_context>"),
    ("<skill>", "</skill>"),
    ("<user_shell_command>", "</user_shell_command>"),
    ("<turn_aborted>", "</turn_aborted>"),
    ("<subagent_notification>", "</subagent_notification>"),
    ("<recommended_plugins>", "</recommended_plugins>")]

/-- `AdditionalContextUserFragment::matches_text`. -/
def matchesAdditionalContext (text : Text) : Bool :=
  match stripLead "<external_" (String.ofList (trimChars text)) with
  | none => false
  | some rest =>
    (splitOnce '>' rest).any fun (key, valueAndClose) =>
      ("</external_" ++ key ++ ">").toList.isSuffixOf valueAndClose.toList

/-- `is_valid_source`. -/
def isValidSource : Text → Bool
  | [] => false
  | first :: rest => first.isLower && rest.all fun c => c.isLower || c.isDigit || c == '_'

/-- `InternalModelContextFragment::matches_text`. -/
def matchesInternalContext (text : Text) : Bool :=
  let trimmed := trimChars text
  let lead := "<codex_internal_context source=\"".toList
  "<goal_context>".toList.isPrefixOf trimmed && "</goal_context>".toList.isSuffixOf trimmed ||
    lead.isPrefixOf trimmed &&
      (splitOnceChars "\">".toList (trimmed.drop lead.length)).any fun (source, bodyAndClose) =>
        isValidSource source && "</codex_internal_context>".toList.isSuffixOf bodyAndClose

/-- The three warnings of older versions. -/
def matchesLegacyWarning (text : Text) : Bool :=
  let trimmed := trimChars text
  let starts (lead : String) : Bool := lead.toList.isPrefixOf trimmed
  starts "Warning: The maximum number of unified exec processes you can keep open is" ||
    starts "Warning: apply_patch was requested via " &&
      "Use the apply_patch tool instead of exec_command.".toList.isSuffixOf trimmed ||
    starts "Warning: Your account was flagged for potentially high-risk cyber activity"

/-- `is_standard_contextual_user_text`. -/
def isStandardContextualUserText (text : Text) : Bool :=
  contextualUserMarkers.any (fun markers => matchesMarkedText markers.1 markers.2 text) ||
    matchesAdditionalContext text || matchesInternalContext text || matchesLegacyWarning text

/-- **The fragments of the source.** What the readers of XML and JSON say about a text – that it
is the prompt of a hook, that it is a message of another agent – is a parameter. -/
def FragmentTexts.ofReaders (hookPrompt interAgent : String → Bool) : FragmentTexts where
  contextualUser text := hookPrompt text || isStandardContextualUserText text.toList
  contextualDeveloper text := isContextualDevText text.toList
  interAgent := interAgent
  modelSwitch text := matchesMarkedText "<model_switch>" "</model_switch>" text.toList

namespace ContextManager

variable (manager : ContextManager ρ κ ν)

/-! ### Recording -/

/-- The history is replaced as a whole. -/
def replaceAnnotated (items : List (ResponseItemEnvelope ρ)) : ContextManager ρ κ ν :=
  { manager with
    items
    historyVersion := U64.saturatingAdd manager.historyVersion 1
    worldStateBaseline := none }

/-! ### Trimming -/

/-- **The oldest item goes**, and its counterpart. -/
def removeFirstItem : ContextManager ρ κ ν :=
  match manager.items with
  | [] => manager
  | removed :: items =>
    { manager with
      items := removeCorrespondingFor items removed.item
      worldStateBaseline := none }

/-! ### Rolling back -/

section Rollback

variable (texts : FragmentTexts)

/-- Where turns begin. -/
def userMessagePositions (items : List (ResponseItemEnvelope ρ)) : List ℕ :=
  ListEdit.positionsOf (fun envelope => texts.isUserTurnBoundary envelope.item) items 0

/-- **Walk back from a cut** over messages of context, but not over the beginning of the first turn.
The flag says that a message of context went which held other instructions as well. -/
def trimPreTurnContextUpdates (snapshot : List (ResponseItemEnvelope ρ))
    (firstInstructionTurnIdx : ℕ) : ℕ → ℕ × Bool
  | 0 => (0, false)
  | cutIdx + 1 =>
    if firstInstructionTurnIdx < cutIdx + 1 then
      match snapshot[cutIdx]?.map ResponseItemEnvelope.item with
      | some (.message _ role content _ _) =>
        if role = "developer" ∧ texts.isContextualDevMessageContent content = true then
          let (cut, cleared) := trimPreTurnContextUpdates snapshot firstInstructionTurnIdx cutIdx
          (cut, cleared || texts.hasNonContextualDevMessageContent content)
        else if role = "user" ∧ texts.isContextualUserMessageContent content = true then
          trimPreTurnContextUpdates snapshot firstInstructionTurnIdx cutIdx
        else (cutIdx + 1, false)
      | _ => (cutIdx + 1, false)
    else (cutIdx + 1, false)

/-- A part of a message that is an instruction on a change of models. -/
def isModelSwitch : ContentItem → Bool
  | .inputText text => texts.modelSwitch text
  | _ => false

def isDeveloperMessage : ResponseItem ρ → Bool
  | .message _ role _ _ _ => role == "developer"
  | _ => false

/-- The instructions on a change of models that came with a turn go with it. -/
def withoutModelSwitch (turnId : String) (envelope : ResponseItemEnvelope ρ) :
    Option (ResponseItemEnvelope ρ) :=
  if envelope.item.turnId = some turnId ∧ isDeveloperMessage envelope.item = true then
    match envelope.item.toAnnotatedContent with
    | none => none
    | some content =>
      let content := content.filter fun part => !isModelSwitch texts part.1
      if content = [] then none
      else (envelope.item.setAnnotatedContent content).map fun item => { envelope with item }
  else some envelope

/-- **Drop the last turns**, and the messages of context in front of them. -/
def dropLastNUserTurns (numTurns : ℕ) : ContextManager ρ κ ν :=
  if numTurns = 0 then manager
  else
    let userPositions := userMessagePositions texts manager.items
    match userPositions.head? with
    | none => manager.replaceAnnotated manager.items
    | some firstInstructionTurnIdx =>
      let cutIdx :=
        if userPositions.length ≤ numTurns then firstInstructionTurnIdx
        else userPositions.getD (userPositions.length - numTurns) 0
      let (cutIdx, cleared) :=
        trimPreTurnContextUpdates texts manager.items firstInstructionTurnIdx cutIdx
      let retainedItems := manager.items.take cutIdx
      let retainedItems :=
        match manager.items[firstInstructionTurnIdx]?.bind fun envelope => envelope.item.turnId with
        | some firstTurnId =>
          if cutIdx = firstInstructionTurnIdx then
            retainedItems.filterMap (withoutModelSwitch texts firstTurnId)
          else retainedItems
        | none => retainedItems
      { manager with
        referenceContextItem := if cleared then none else manager.referenceContextItem
          }.replaceAnnotated
          retainedItems

end Rollback

/-! ### The prompt -/

section Prompt

variable (newV5 : String → String) (inputModalities : List InputModality)

def normalizeHistory : ContextManager ρ κ ν :=
  { manager with
    items := stripAudioWhenUnsupported inputModalities
      (stripImagesWhenUnsupported inputModalities
        (removeOrphanOutputs (ensureCallOutputsPresent newV5 manager.items))) }

def forPromptAnnotated : List (ResponseItemEnvelope ρ) :=
  (manager.normalizeHistory newV5 inputModalities).items

/-- **The history as it is sent to the model.** -/
def forPrompt : List (ResponseItem ρ) :=
  (manager.forPromptAnnotated newV5 inputModalities).map ResponseItemEnvelope.item

variable {inputModalities}

/-- If nothing has to be stripped, the prompt is the history with its calls and outputs paired. -/
theorem forPromptAnnotated_eq (himage : .image ∈ inputModalities)
    (haudio : .audio ∈ inputModalities) :
    manager.forPromptAnnotated newV5 inputModalities = paired newV5 manager.items := by
  rw [forPromptAnnotated, normalizeHistory, stripAudioWhenUnsupported, stripWhenUnsupported,
    if_pos haudio, stripImagesWhenUnsupported, stripWhenUnsupported, if_pos himage,
    removeOrphanOutputs_ensure]

end Prompt

/-! ### Rolling back one turn -/

section RollbackOne

variable {manager} {texts : FragmentTexts}

/-- A message of context, which is trimmed in front of a turn that is dropped. -/
def IsTrimmable (texts : FragmentTexts) (item : ResponseItem ρ) : Prop :=
  ∃ id role content phase metadata, item = .message id role content phase metadata ∧
    (role = "developer" ∧ texts.isContextualDevMessageContent content = true ∨
      role = "user" ∧ texts.isContextualUserMessageContent content = true)

/-- Nothing is trimmed if the item in front of the cut is no message of context. -/
theorem trimPreTurnContextUpdates_eq {snapshot : List (ResponseItemEnvelope ρ)} {first cut : ℕ}
    (h : first < cut → ∀ envelope, snapshot[cut - 1]? = some envelope →
      ¬ IsTrimmable texts envelope.item) :
    trimPreTurnContextUpdates texts snapshot first cut = (cut, false) := by
  cases cut with
  | zero => rfl
  | succ cut =>
    rw [trimPreTurnContextUpdates]
    split
    · next hlt =>
      have hstop := h hlt
      rw [Nat.add_sub_cancel] at hstop
      cases hitem : snapshot[cut]? with
      | none => rfl
      | some envelope =>
        have hnot := hstop envelope hitem
        rw [Option.map_some]
        split
        · next id role content phase metadata heq =>
          have hmessage := Option.some.inj heq
          rw [if_neg fun hdev => hnot ⟨id, role, content, phase, metadata, hmessage, Or.inl hdev⟩,
            if_neg fun huser => hnot ⟨id, role, content, phase, metadata, hmessage, Or.inr huser⟩]
        · rfl
    · rfl

end RollbackOne

theorem wellPaired_removeFirstItem (h : WellPaired manager.items) :
    WellPaired manager.removeFirstItem.items := by
  rw [removeFirstItem]
  cases hitems : manager.items with
  | nil => exact h
  | cons removed items =>
    rw [hitems] at h
    exact h.removeCorrespondingFor

end ContextManager

/-- **Prompts pair every call with its output.** In the prompt of a model that accepts images and
audio, every call id of a kind has an output of the kind and every output, except of tool searches
that the server made, has a call. The items of the history that are no orphans are there, in their
order, and an output is inserted directly behind every call whose id had none; a second pass finds
nothing to do. And dropping the oldest items keeps the calls and outputs of a history paired. -/
theorem prompt_pairs_calls (newV5 : String → String) (manager : ContextManager ρ κ ν)
    (inputModalities : List InputModality) (himage : .image ∈ inputModalities)
    (haudio : .audio ∈ inputModalities) :
    let prompt := manager.forPromptAnnotated newV5 inputModalities
    manager.forPrompt newV5 inputModalities = prompt.map ResponseItemEnvelope.item ∧
    (∀ pair, HasCall prompt pair → HasOutput prompt pair) ∧
    (∀ envelope ∈ prompt, ∀ pair, envelope.item.output? = some pair →
      envelope.item.isServerExecuted = false → HasCall prompt pair) ∧
    prompt = manager.items.flatMap (fun envelope =>
      if Orphan manager.items envelope.item then []
      else envelope :: (missingOutput newV5 manager.items envelope).toList) ∧
    (∀ envelope out, missingOutput newV5 manager.items envelope = some out ↔
      ∃ kind callId, envelope.item.call? = some (kind, callId) ∧
        ¬ HasOutput manager.items (kind, callId) ∧
        out = ⟨syntheticOutput newV5 kind envelope.item.callItemId callId, none⟩) ∧
    { manager with items := prompt }.forPromptAnnotated newV5 inputModalities = prompt ∧
    (WellPaired manager.items →
      ∀ n, WellPaired (ContextManager.removeFirstItem^[n] manager).items) := by
  intro prompt
  have hprompt : prompt = paired newV5 manager.items :=
    manager.forPromptAnnotated_eq newV5 himage haudio
  refine ⟨rfl, ?_, ?_, hprompt, fun _ _ => missingOutput_eq_some, ?_, ?_⟩
  · intro pair hcall
    rw [hprompt] at hcall ⊢
    exact hasOutput_paired (hasCall_paired.mp hcall)
  · intro envelope hmem pair hpair hserver
    rw [hprompt] at hmem ⊢
    by_contra hcall
    exact not_orphan_paired hmem ⟨hserver, pair, hpair, hcall⟩
  · rw [ContextManager.forPromptAnnotated_eq _ newV5 himage haudio, hprompt]
    exact paired_paired newV5 manager.items
  · intro hpaired n
    induction n with
    | zero => exact hpaired
    | succ n ih =>
      rw [Function.iterate_succ_apply']
      exact ContextManager.wellPaired_removeFirstItem _ ih

/-- A call that was aborted, and the late output of another one that is gone. -/
def abortedCall : ContextManager Unit Unit ℕ where
  items :=
    [⟨.functionCall (some "fc_1") "call-1" () none, none⟩,
      ⟨.functionCallOutput none (some "call-0") none none (.fromText "late") none, none⟩]

theorem prompt_pairs_an_aborted_call :
    abortedCall.forPrompt id [.text, .image, .audio] =
      [.functionCall (some "fc_1") "call-1" () none,
        .functionCallOutput (some "fco_fco:fc_1") (some "call-1") none none (.fromText "aborted")
          none] ∧
    ∀ pair, HasCall (abortedCall.forPromptAnnotated id [.text, .image, .audio]) pair →
      HasOutput (abortedCall.forPromptAnnotated id [.text, .image, .audio]) pair :=
  ⟨by decide +kernel, (prompt_pairs_calls id abortedCall _ (by decide) (by decide)).2.1⟩

end Rivloom.Session
