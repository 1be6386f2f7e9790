import Mathlib.Data.List.Basic

/-!
# The items of a history

What the model says, what it is told and the calls it makes are items
(`Rivloom.Session.ResponseItem`), and a history is a list of them, each with metadata of its
own (`Rivloom.Session.ResponseItemEnvelope`). The fields that nothing here reads are one
field of an arbitrary type, so that an item that is kept is kept with all it carries.

The content of a message is annotated by position: next to the list of its parts there is a
list of their kinds, which may be too short
(`Rivloom.Session.ResponseItem.toAnnotatedContent`).
-/

namespace Rivloom.Session

/-- A part of the content of a message. -/
inductive ContentItem where
  | inputText (text : String)
  | inputImage (imageUrl : String) (detail : Option String)
  | inputAudio (audioUrl : String)
  | outputText (text : String)
  deriving DecidableEq

inductive AgentMessageInputContent where
  | inputText (text : String)
  | encryptedContent (encryptedContent : String)
  deriving DecidableEq

/-- A part of what a tool answered. -/
inductive FunctionCallOutputContentItem where
  | inputText (text : String)
  | inputImage (imageUrl : String) (detail : Option String)
  | inputAudio (audioUrl : String)
  | encryptedContent (encryptedContent : String)
  deriving DecidableEq

inductive FunctionCallOutputBody where
  | text (text : String)
  | contentItems (items : List FunctionCallOutputContentItem)
  deriving DecidableEq

/-- What a tool answered. -/
structure FunctionCallOutputPayload where
  body : FunctionCallOutputBody
  success : Option Bool
  deriving DecidableEq

/-- `FunctionCallOutputPayload::from_text`. -/
def FunctionCallOutputPayload.fromText (text : String) : FunctionCallOutputPayload :=
  ⟨.text text, none⟩

/-- `InternalChatMessageMetadataPassthrough`. -/
structure ItemMetadata where
  turnId : Option String := none
  createTime : Option String := none
  contentItemKinds : Option (List String) := none
  deriving DecidableEq

/-- **An item.** The type `ρ` is that of the fields that nothing here reads. -/
inductive ResponseItem (ρ : Type) where
  | additionalTools (id : Option String) (role : String) (tools : List ρ)
  | message (id : Option String) (role : String) (content : List ContentItem)
      (phase : Option String) (metadata : Option ItemMetadata)
  | agentMessage (id : Option String) (author recipient : String)
      (content : List AgentMessageInputContent) (metadata : Option ItemMetadata)
  | reasoning (rest : ρ) (metadata : Option ItemMetadata)
  | localShellCall (id callId : Option String) (rest : ρ) (metadata : Option ItemMetadata)
  | functionCall (id : Option String) (callId : String) (rest : ρ)
      (metadata : Option ItemMetadata)
  | toolSearchCall (id callId : Option String) (rest : ρ) (metadata : Option ItemMetadata)
  | functionCallOutput (id callId name namespaceName : Option String)
      (output : FunctionCallOutputPayload) (metadata : Option ItemMetadata)
  | customToolCall (id : Option String) (callId : String) (rest : ρ)
      (metadata : Option ItemMetadata)
  | customToolCallOutput (id : Option String) (callId : String) (name : Option String)
      (output : FunctionCallOutputPayload) (metadata : Option ItemMetadata)
  | toolSearchOutput (id callId : Option String) (status execution : String) (tools : List ρ)
      (metadata : Option ItemMetadata)
  | webSearchCall (rest : ρ) (metadata : Option ItemMetadata)
  | imageGenerationCall (rest : ρ) (result : String) (metadata : Option ItemMetadata)
  | compaction (rest : ρ) (metadata : Option ItemMetadata)
  | compactionTrigger
  | contextCompaction (rest : ρ) (metadata : Option ItemMetadata)
  | other
  deriving DecidableEq

/-- Metadata that only the history has. -/
structure CodexHarnessMetadata where
  clientAuthored : Bool
  deriving DecidableEq

/-- **An item of a history.** -/
structure ResponseItemEnvelope (ρ : Type) where
  item : ResponseItem ρ
  metadata : Option CodexHarnessMetadata := none
  deriving DecidableEq

variable {ρ : Type}

namespace ResponseItem

def metadata : ResponseItem ρ → Option ItemMetadata
  | .message _ _ _ _ metadata
  | .agentMessage _ _ _ _ metadata
  | .reasoning _ metadata
  | .localShellCall _ _ _ metadata
  | .functionCall _ _ _ metadata
  | .toolSearchCall _ _ _ metadata
  | .functionCallOutput _ _ _ _ _ metadata
  | .customToolCall _ _ _ metadata
  | .customToolCallOutput _ _ _ _ metadata
  | .toolSearchOutput _ _ _ _ _ metadata
  | .webSearchCall _ metadata
  | .imageGenerationCall _ _ metadata
  | .compaction _ metadata
  | .contextCompaction _ metadata => metadata
  | .additionalTools _ _ _ | .compactionTrigger | .other => none

/-- The turn that an item is stamped with, if it is not empty. -/
def turnId (item : ResponseItem ρ) : Option String :=
  (item.metadata.bind ItemMetadata.turnId).filter (· ≠ "")

/-! ### Content and its kinds -/

/-- `to_annotated_content`: the parts of a message with their kinds, for want of a kind
`"unknown"`. -/
def toAnnotatedContent : ResponseItem ρ → Option (List (ContentItem × String))
  | .message _ _ content _ metadata =>
    let kinds := (metadata.bind ItemMetadata.contentItemKinds).getD []
    some (content.zipIdx.map fun (part, i) => (part, kinds.getD i "unknown"))
  | _ => none

/-- `set_annotated_content`: replace the parts of a message and their kinds. -/
def setAnnotatedContent (item : ResponseItem ρ) (content : List (ContentItem × String)) :
    Option (ResponseItem ρ) :=
  match item with
  | .message id role _ phase metadata =>
    some (.message id role (content.map Prod.fst) phase
      (some { metadata.getD {} with contentItemKinds := some (content.map Prod.snd) }))
  | _ => none

end ResponseItem

end Rivloom.Session
