import Maknae.Config.Providers

/-!
# Prompts and the frames to the egress daemon

What a prompt carries on the wire, and the frame the kernel sends to the egress daemon for one that
was decided. The predicates are of shape alone: every field is bounded before anything reads it.
-/

namespace Maknae.Proto

open Config (byteLength safeTokenByte shortText)

def maxConversationIdBytes : ℕ := 32
def maxContextTokens : ℕ := 16777216
def maxToolCallArgsBytes : ℕ := 61440
def maxToolCallNameBytes : ℕ := 64
def maxToolCallIdBytes : ℕ := 64
def maxReasoningBytes : ℕ := maxToolCallArgsBytes
def sealedKeyMinBytes : ℕ := 127
def sealedKeyMaxBytes : ℕ := 1150

/-- A short text of token bytes. -/
def conversationIdIsAcceptable (id : String) : Bool :=
  shortText maxConversationIdBytes safeTokenByte id

/-- At least one token, and no more than the largest context has. -/
def outputTokensIsAcceptable (n : ℕ) : Bool := 1 ≤ n && n ≤ maxContextTokens

/-- A piece of the content of a turn. -/
inductive ContentBlock
  | text (text : String)
  | image (data mimeType : String)
  | audio (data mimeType : String)
  | resource (uri : String) (text : Option String)
  | resourceLink (uri name : String)
deriving DecidableEq, Repr

namespace ContentBlock

/-- The kind of a block as it stands on the wire. -/
def kind : ContentBlock → String
  | text _ => "text"
  | image _ _ => "image"
  | audio _ _ => "audio"
  | resource _ _ => "resource"
  | resourceLink _ _ => "resource_link"

def isText : ContentBlock → Bool
  | text _ => true
  | _ => false

end ContentBlock

/-- Why a proposed call is not to be run. -/
inductive CallRefusal
  | argumentsOverBound (bytes : ℕ)
deriving DecidableEq, Repr

/-- A tool call the model asks for. -/
structure ProposedToolCall where
  name : String
  callId : String
  arguments : String
  refused : Option CallRefusal
deriving DecidableEq, Repr

/-- One turn of a conversation. -/
inductive Turn
  | user (content : List ContentBlock)
  | assistant (content : List ContentBlock) (toolCalls : List ProposedToolCall)
    (reasoning : Option String)
  | tool (callId : String) (content : List ContentBlock)
deriving DecidableEq, Repr

def Turn.content : Turn → List ContentBlock
  | user content | assistant content _ _ | tool _ content => content

def reasoningIsAcceptable (r : Option String) : Bool :=
  r.all fun t ↦ byteLength t ≤ maxReasoningBytes

/-- The arguments are within the bound, or left out since they are not. -/
def proposedToolCallIsAcceptable (c : ProposedToolCall) : Bool :=
  c.name ≠ "" && byteLength c.name ≤ maxToolCallNameBytes && c.callId ≠ "" &&
    byteLength c.callId ≤ maxToolCallIdBytes &&
    match c.refused with
    | none => byteLength c.arguments ≤ maxToolCallArgsBytes
    | some (.argumentsOverBound bytes) => c.arguments = "" && maxToolCallArgsBytes < bytes

/-- A turn carries something, and all of it within its bounds. -/
def turnIsAcceptable : Turn → Bool
  | .user content => content ≠ []
  | .assistant content toolCalls reasoning =>
    (content ≠ [] || toolCalls ≠ []) && toolCalls.all proposedToolCallIsAcceptable &&
      reasoningIsAcceptable reasoning
  | .tool callId content =>
    callId ≠ "" && byteLength callId ≤ maxToolCallIdBytes && content ≠ []

/-- A sealed key has the length of a sealed blob: a shorter or longer one is not decoded. -/
structure SealedKey where
  bytes : List UInt8
  length_bytes : sealedKeyMinBytes ≤ bytes.length ∧ bytes.length ≤ sealedKeyMaxBytes
deriving DecidableEq

/-- The model a prompt asks for, and where the user's key to it is. -/
structure ProviderChoice where
  provider : String
  model : String
  keySubpath : String
  keyField : String
  sealedKey : SealedKey

/-- The field in which a provider takes a bound on the output. -/
inductive OutputTokensField
  | maxCompletionTokens
  | maxTokens

/-- The tokens that a provider counted. -/
structure Usage where
  promptTokens : ℕ
  completionTokens : Option ℕ
deriving DecidableEq, Repr

/-- What the model answered. -/
structure PromptReply where
  blocks : List ContentBlock
  toolCalls : List ProposedToolCall
  usage : Option Usage
  reasoning : Option String
deriving DecidableEq, Repr

/-- Why a provider's answer cannot be used. -/
inductive ReplyDefect
  | malformed
  | noChoices
  | empty
  | reasoningOnly
  | tokenLimit
  | unknownTool
  | overBound
  | providerAuth
  | providerRateLimit
  | providerRejected
  | providerError
deriving DecidableEq, Repr

/-- The defect that an HTTP status stands for. -/
def ReplyDefect.fromStatus (code : ℕ) : ReplyDefect :=
  if code = 401 ∨ code = 403 then .providerAuth
  else if code = 429 then .providerRateLimit
  else if 400 ≤ code ∧ code ≤ 499 then .providerRejected
  else .providerError

/-- What the daemon answers to a frame. -/
inductive EgressFrameReply
  | reply (reply : PromptReply)
  | refusedBeforeSend
  | atCapacity
  | unusable (defect : ReplyDefect) (usage : Option Usage)
deriving DecidableEq, Repr

/-- The answers that say nothing left. -/
def EgressFrameReply.IsRefusal (r : EgressFrameReply) : Prop :=
  r = .refusedBeforeSend ∨ r = .atCapacity

instance (r : EgressFrameReply) : Decidable r.IsRefusal :=
  inferInstanceAs (Decidable (_ ∨ _))

def egressRequestFrameMaxBytes : ℕ := 16842752
def egressReplyFrameEncodeBytes : ℕ := 1052672

/-- The reply's encoding, from the serialization library: into a buffer of a fixed size, and back.
Bytes that were encoded decode to no other reply. -/
structure ReplyCodec where
  encode : EgressFrameReply → ℕ → Except String (List UInt8)
  decode : List UInt8 → Except String EgressFrameReply
  eq_of_decode_encode : ∀ {r r' n out}, encode r n = .ok out → decode out = .ok r' → r' = r
  length_encode_le : ∀ {r n out}, encode r n = .ok out → out.length ≤ n

/-- What the kernel sends for a prompt that was permitted. -/
structure EgressFrameRequest where
  destination : String
  endpoint : String
  model : String
  keyVaultPath : String
  keyField : String
  sealedKey : SealedKey
  reasoningEffort : Option String
  deadlineMs : Option ℕ
  outputTokens : Option ℕ
  outputTokensField : Option OutputTokensField
  conversation : String
  turns : List Turn

/-- The shape of the frames that the daemon takes up. -/
def egressFrameRequestIsAcceptable (r : EgressFrameRequest) : Bool :=
  conversationIdIsAcceptable r.conversation && r.destination ≠ "" && r.endpoint ≠ "" &&
    r.model ≠ "" && r.keyVaultPath ≠ "" && r.keyField ≠ "" &&
    r.reasoningEffort.all (fun e ↦ e ≠ "") && r.outputTokens.all outputTokensIsAcceptable &&
    (r.outputTokensField.isNone || r.outputTokens.isSome) && r.turns ≠ [] &&
    r.turns.all turnIsAcceptable

theorem egressFrameRequestIsAcceptable_iff {r} :
    egressFrameRequestIsAcceptable r ↔
      conversationIdIsAcceptable r.conversation ∧ r.destination ≠ "" ∧ r.endpoint ≠ "" ∧
      r.model ≠ "" ∧ r.keyVaultPath ≠ "" ∧ r.keyField ≠ "" ∧ (∀ e ∈ r.reasoningEffort, e ≠ "") ∧
      r.outputTokens.all outputTokensIsAcceptable ∧
      (r.outputTokensField = none ∨ r.outputTokens.isSome) ∧ r.turns ≠ [] ∧
      ∀ t ∈ r.turns, turnIsAcceptable t := by
  have heffort : (r.reasoningEffort.all fun e ↦ e ≠ "") ↔ ∀ e ∈ r.reasoningEffort, e ≠ "" := by
    cases r.reasoningEffort <;> simp
  simp only [egressFrameRequestIsAcceptable, Bool.and_eq_true, heffort, and_assoc]
  simp

end Maknae.Proto
