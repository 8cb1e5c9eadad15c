import Maknae.Kernel.ProviderChoice

/-!
# The request of a prompt

The kernel looks at a prompt three times before it is sent: at its bounds and its transcript before
the policy is asked, at the choice of a provider, and at the size of the frame. This module is the
first of these, and the frame that is built for a prompt that passes.
-/

namespace Maknae.Kernel

open Config Except List Proto

/-- What a prompt carries, as far as its admission reads it. -/
structure Prompt where
  conversation : String
  turns : List Turn
  outputTokens : Option ℕ
  choice : Option ProviderChoice

def ContentBlock.blank : ContentBlock → Bool
  | .text t => trim t = ""
  | _ => false

/-- The refusal of the first block that is not text. -/
def refuseNonText (content : List ContentBlock) : Except String Unit :=
  match content.find? fun b ↦ !b.isText with
  | none => .ok ()
  | some b =>
    let kind := b.kind
    .error s!"content block type not admitted in this deployment: {kind}"

def admittedBlocks (content : List ContentBlock) : Except String Unit := do
  .refuseIf (content = []) "prompt carries no content"
  .refuseIf (content.all ContentBlock.blank) "prompt carries no text to send"
  refuseNonText content

/-- A turn after the first. -/
def admittedLaterTurn : Turn → Except String Unit
  | .user content => admittedBlocks content
  | .assistant content _ _ => refuseNonText content
  | .tool _ content =>
    (admittedBlocks content).mapError fun e ↦
      if e = "prompt carries no text to send" then "tool result carries no text" else e

def admittedFirstTurn : Turn → Except String Unit
  | .user content => admittedBlocks content
  | _ => .error "prompt must begin with a user turn"

def admittedTurns : List Turn → Except String Unit
  | [] => .error "prompt carries no turns"
  | first :: rest => do
    .refuseIf ((first :: rest).any fun t ↦ !turnIsAcceptable t) "turn fails shape admission"
    admittedFirstTurn first
    rest.forM admittedLaterTurn

/-- Why a prompt is refused before the policy is asked. -/
def promptPregate (p : Prompt) : Except String Unit := do
  .refuseIf (¬p.outputTokens.all outputTokensIsAcceptable) "reply cap not acceptable"
  .refuseIf (¬conversationIdIsAcceptable p.conversation) "conversation identifier not acceptable"
  admittedTurns p.turns

structure EgressRequest where
  destination : String
  endpoint : String
  model : String
  keyVaultPath : String
  keyField : String
  sealedKey : SealedKey
  reasoningEffort : Option String
  outputTokens : Option ℕ
  outputTokensField : Option OutputTokensField
  conversation : String
  turns : List Turn

def EgressRequest.forChoice (c : AdmittedProviderChoice) (destination conversation : String)
    (turns : List Turn) (outputTokens : Option ℕ) : EgressRequest where
  destination := destination
  endpoint := c.provider.endpoint
  model := c.model
  keyVaultPath := c.keyVaultPath
  keyField := c.keyField
  sealedKey := c.sealedKey
  reasoningEffort := c.provider.reasoningEffort
  outputTokens := outputTokens
  outputTokensField := outputTokens.map fun _ ↦
    if c.provider.outputTokensField = some "max_tokens" then .maxTokens else .maxCompletionTokens
  conversation := conversation
  turns := turns

/-- The deadline in milliseconds, cut to a machine word. -/
def deadlineMillis (deadline : Vault.Duration) : ℕ :=
  (deadline.secs * 1000 + deadline.subsecNanos / 1000000) % 2 ^ 64

def frameOf (req : EgressRequest) (deadline : Vault.Duration) : EgressFrameRequest where
  deadlineMs := some (deadlineMillis deadline)
  destination := req.destination
  endpoint := req.endpoint
  model := req.model
  keyVaultPath := req.keyVaultPath
  keyField := req.keyField
  sealedKey := req.sealedKey
  reasoningEffort := req.reasoningEffort
  conversation := req.conversation
  turns := req.turns
  outputTokens := req.outputTokens
  outputTokensField := req.outputTokensField

/-- The frame of an admitted prompt. -/
def promptFrame (a : AdmittedProviderChoice) (p : Prompt) (deadline : Vault.Duration) :
    EgressFrameRequest :=
  frameOf (.forChoice a ("provider:" ++ a.provider.name) p.conversation p.turns p.outputTokens)
    deadline

/-! ### What is admitted -/

/-- Blocks of text, one of them with something in it. -/
structure TextBlocks (content : List ContentBlock) : Prop where
  isText : ∀ b ∈ content, b.isText
  not_blank : ¬content.all ContentBlock.blank

variable {content : List ContentBlock} {t : Turn}

theorem refuseNonText_eq_ok_iff :
    refuseNonText content = .ok () ↔ ∀ b ∈ content, b.isText := by
  unfold refuseNonText
  split
  · next hfind => simpa using hfind
  · next b hfind =>
    refine iff_of_false (fun h ↦ nomatch h) fun h ↦ ?_
    have htext := find?_some hfind
    rw [h b (mem_of_find?_eq_some hfind)] at htext
    exact nomatch htext

theorem admittedBlocks_eq_ok_iff :
    admittedBlocks content = .ok () ↔ TextBlocks content := by
  have hblank : ¬content.all ContentBlock.blank → content ≠ [] := by
    rintro hblank rfl
    exact hblank rfl
  unfold admittedBlocks
  simp only [refuseIf_bind_eq_ok, refuseNonText_eq_ok_iff]
  exact ⟨fun ⟨_, hblank, htext⟩ ↦ ⟨htext, hblank⟩,
    fun h ↦ ⟨hblank h.not_blank, h.not_blank, h.isText⟩⟩

/-- What admission asks of one turn, beyond its shape. -/
def AdmittedTurn : Turn → Prop
  | .user content | .tool _ content => TextBlocks content
  | .assistant content _ _ => ∀ b ∈ content, b.isText

theorem AdmittedTurn.isText (h : AdmittedTurn t) : ∀ b ∈ t.content, b.isText := by
  cases t with
  | user content => exact TextBlocks.isText h
  | assistant content toolCalls reasoning => exact h
  | tool callId content => exact TextBlocks.isText h

theorem admittedLaterTurn_eq_ok_iff : admittedLaterTurn t = .ok () ↔ AdmittedTurn t := by
  cases t with
  | user content => exact admittedBlocks_eq_ok_iff
  | assistant content toolCalls reasoning => exact refuseNonText_eq_ok_iff
  | tool callId content => exact mapError_eq_ok_iff.trans admittedBlocks_eq_ok_iff

/-- **An admitted transcript** begins with the user, and each of its turns passed both checks. -/
theorem admittedTurns_eq_ok_iff {turns} :
    admittedTurns turns = .ok () ↔ (∃ content rest, turns = .user content :: rest) ∧
      (∀ t ∈ turns, turnIsAcceptable t) ∧ ∀ t ∈ turns, AdmittedTurn t := by
  cases turns with
  | nil => exact iff_of_false (fun h ↦ nomatch h) fun ⟨⟨_, _, h⟩, _⟩ ↦ nomatch h
  | cons first rest =>
    have hshape : ¬((first :: rest).any fun t ↦ !turnIsAcceptable t) ↔
        ∀ t ∈ first :: rest, turnIsAcceptable t := by simp
    have hfirst : admittedFirstTurn first = .ok () ↔
        (∃ content, first = .user content) ∧ AdmittedTurn first := by
      cases first with
      | user content => exact admittedBlocks_eq_ok_iff.trans (and_iff_right ⟨content, rfl⟩).symm
      | assistant content toolCalls reasoning =>
        exact iff_of_false (fun h ↦ nomatch h) fun ⟨⟨_, h⟩, _⟩ ↦ nomatch h
      | tool callId content => exact iff_of_false (fun h ↦ nomatch h) fun ⟨⟨_, h⟩, _⟩ ↦ nomatch h
    unfold admittedTurns
    rw [refuseIf_bind_eq_ok, hshape, bind_eq_ok, forall_mem_cons (p := AdmittedTurn)]
    simp only [forM_eq_ok, admittedLaterTurn_eq_ok_iff]
    constructor
    · rintro ⟨hshape, _, hok, hrest⟩
      obtain ⟨⟨content, rfl⟩, hadmitted⟩ := hfirst.mp hok
      exact ⟨⟨content, rest, rfl⟩, hshape, hadmitted, hrest⟩
    · rintro ⟨⟨content, _, heq⟩, hshape, hadmitted, hrest⟩
      exact ⟨hshape, ⟨⟩, hfirst.mpr ⟨⟨content, (cons_eq_cons.mp heq).1⟩, hadmitted⟩, hrest⟩

theorem promptPregate_eq_ok {p} (h : promptPregate p = .ok ()) :
    p.outputTokens.all outputTokensIsAcceptable ∧ conversationIdIsAcceptable p.conversation ∧
      admittedTurns p.turns = .ok () := by
  obtain ⟨_, htokens, _, hconversation, h⟩ := bind₂_eq_ok.mp h
  rw [refuseIf_eq_ok, not_not] at htokens hconversation
  exact ⟨htokens, hconversation, h⟩

end Maknae.Kernel
