import Maknae.Proto.EgressFrame

/-!
# The transcript

The turns the loop sends again with every prompt. The kernel keeps no conversation, so this is all
the memory there is. A turn is added at the end, and the reasoning of an old one can be shed to make
room; no other change is made.

What a provider asks of a transcript is about the role of each turn and the ids of its calls, which
shedding leaves alone (`roles_shedOldest`). `Ready` is how the loop builds the transcripts it may
send, `WellFormed` what the provider asks of each place in one.
-/

namespace Maknae.Agent

open Config (byteLength)
open List Option Proto

structure Transcript where
  conversation : String
  turns : List Turn

def blockBytes : ContentBlock → ℕ
  | .text text => byteLength text
  | _ => 0

def turnBytes : Turn → ℕ
  | .user content | .tool _ content => (content.map blockBytes).sum
  | .assistant content toolCalls reasoning =>
    (content.map blockBytes).sum + (toolCalls.map fun c ↦ byteLength c.arguments).sum +
      reasoning.elim 0 byteLength

/-- A turn without its reasoning, if it had some. -/
def takeReasoning : Turn → Option Turn
  | .assistant content toolCalls (some _) => some (.assistant content toolCalls none)
  | _ => none

/-- The turns without the oldest reasoning, if there is one. -/
def shedOldest : List Turn → Option (List Turn)
  | [] => none
  | t :: rest =>
    match takeReasoning t with
    | some t' => some (t' :: rest)
    | none => (shedOldest rest).map (t :: ·)

namespace Transcript

def new (conversation prompt : String) : Transcript := ⟨conversation, [.user [.text prompt]]⟩

def push (t : Transcript) (turn : Turn) : Transcript := { t with turns := t.turns ++ [turn] }

def pushUser (t : Transcript) (prompt : String) : Transcript := t.push (.user [.text prompt])

/-- The reply as it came: the tool turns after it answer its calls. -/
def pushAssistant (t : Transcript) (reply : PromptReply) : Transcript :=
  t.push (.assistant reply.blocks reply.toolCalls reply.reasoning)

def pushToolResult (t : Transcript) (callId result : String) : Transcript :=
  t.push (.tool callId [.text result])

def shedOldestReasoning (t : Transcript) : Option Transcript :=
  (shedOldest t.turns).map fun turns ↦ { t with turns }

def bytes (t : Transcript) : ℕ := (t.turns.map turnBytes).sum

end Transcript

/-! ### Roles -/

/-- What a provider's rules are about. -/
inductive Role
  | user
  | assistant (callIds : List String)
  | tool (callId : String)

def role : Turn → Role
  | .user _ => .user
  | .assistant _ toolCalls _ => .assistant (toolCalls.map ProposedToolCall.callId)
  | .tool callId _ => .tool callId

def roles (turns : List Turn) : List Role := turns.map role

theorem roles_push (t : Transcript) (turn : Turn) :
    roles (t.push turn).turns = roles t.turns ++ [role turn] := map_append

/-- The transcripts that may be sent: the user's, with every call of the model answered. -/
inductive Ready : List Role → Prop
  | first : Ready [.user]
  | answered {rs : List Role} {ids : List String} (hrs : Ready rs) (hids : ids ≠ []) :
      Ready (rs ++ .assistant ids :: ids.map .tool)
  | next {rs : List Role} (hrs : Ready rs) : Ready (rs ++ [.assistant [], .user])

/-- The calls are answered right here: by one tool turn each, in their order, and no other. -/
def AnsweredBy (ids : List String) (after : List Role) : Prop :=
  ∃ rest, after = ids.map .tool ++ rest ∧ ∀ id, rest.head? ≠ some (.tool id)

/-- What a provider asks of the places of a transcript. -/
structure WellFormed (rs : List Role) : Prop where
  begins : rs.head? = some .user
  answered : ∀ before ids after, rs = before ++ .assistant ids :: after → AnsweredBy ids after
  follows : ∀ before after, rs = before ++ .user :: after →
    before = [] ∨ before.getLast? = some (.assistant [])

variable {ids : List String} {turns turns' : List Turn}

theorem AnsweredBy.append {after block} (h : AnsweredBy ids after)
    (hblock : ∀ id, block.head? ≠ some (.tool id)) : AnsweredBy ids (after ++ block) := by
  obtain ⟨rest, rfl, hrest⟩ := h
  refine ⟨rest ++ block, append_assoc .., fun id ↦ ?_⟩
  cases rest with
  | nil => exact hblock id
  | cons r rest => exact hrest id

/-- A place of a transcript with a block added is a place of the transcript or of the block. -/
theorem eq_append_cons_cases {α : Type*} {l block before after : List α} {x}
    (h : l ++ block = before ++ x :: after) :
    (∃ mid, l = before ++ x :: mid ∧ after = mid ++ block) ∨
      ∃ mid, before = l ++ mid ∧ block = mid ++ x :: after := by
  rcases append_eq_append_iff.mp h with ⟨mid, hbefore, hblock⟩ | ⟨mid, hl, hafter⟩
  · exact .inr ⟨mid, hbefore, hblock⟩
  · cases mid with
    | nil => exact .inr ⟨[], by simpa using hl.symm, by simpa using hafter.symm⟩
    | cons y mid =>
      obtain ⟨rfl, rfl⟩ := cons_eq_cons.mp hafter
      exact .inl ⟨mid, hl, rfl⟩

/-- An assistant turn can be added with what follows it up to the next one. -/
theorem WellFormed.append {rs block} (h : WellFormed rs) (hids : AnsweredBy ids block)
    (hassistant : ∀ ids', .assistant ids' ∉ block)
    (huser : ∀ before after, block = before ++ .user :: after → before = [] ∧ ids = []) :
    WellFormed (rs ++ .assistant ids :: block) where
  begins := by
    rw [head?_append, h.begins, some_or]
  answered before ids' after heq := by
    rcases eq_append_cons_cases heq with ⟨mid, hrs, rfl⟩ | ⟨mid, rfl, hblock⟩
    · exact (h.answered before ids' mid hrs).append fun id hid ↦ nomatch hid
    · cases mid with
      | nil =>
        obtain ⟨hrole, rfl⟩ := cons_eq_cons.mp hblock
        rwa [← Role.assistant.inj hrole]
      | cons r mid =>
        obtain ⟨-, rfl⟩ := cons_eq_cons.mp hblock
        exact absurd (mem_append_right mid mem_cons_self) (hassistant ids')
  follows before after heq := by
    rcases eq_append_cons_cases heq with ⟨mid, hrs, rfl⟩ | ⟨mid, rfl, hblock⟩
    · exact h.follows before mid hrs
    · cases mid with
      | nil => exact nomatch (cons_eq_cons.mp hblock).1
      | cons r mid =>
        obtain ⟨rfl, hmid⟩ := cons_eq_cons.mp hblock
        obtain ⟨rfl, rfl⟩ := huser mid after hmid
        exact .inr getLast?_concat

/-- **What may be sent is well formed.** -/
theorem Ready.wellFormed {rs} (h : Ready rs) : WellFormed rs := by
  induction h with
  | first =>
    refine ⟨rfl, fun before ids after heq ↦ ?_, fun before after heq ↦ .inl ?_⟩
    · cases before with
      | nil => exact nomatch (cons_eq_cons.mp heq).1
      | cons r before => simp at heq
    · cases before with
      | nil => rfl
      | cons r before => simp at heq
  | @answered rs ids hrs hids ih =>
    refine ih.append ⟨[], (append_nil _).symm, fun id hid ↦ nomatch hid⟩ ?_ ?_
    · intro ids' hmem
      obtain ⟨id, -, hid⟩ := mem_map.mp hmem
      exact nomatch hid
    · intro before after heq
      have hmem : Role.user ∈ ids.map Role.tool := heq ▸ by simp
      obtain ⟨id, -, hid⟩ := mem_map.mp hmem
      exact nomatch hid
  | @next rs hrs ih =>
    refine ih.append ⟨[.user], rfl, fun id hid ↦ nomatch hid⟩ (by simp) fun before after heq ↦ ?_
    cases before with
    | nil => exact ⟨rfl, rfl⟩
    | cons r before => simp at heq

/-! ### Shedding -/

theorem takeReasoning_eq_some {t t'} (h : takeReasoning t = some t') :
    ∃ content toolCalls reasoning, t = .assistant content toolCalls (some reasoning) ∧
      t' = .assistant content toolCalls none := by
  unfold takeReasoning at h
  split at h
  · next content toolCalls reasoning =>
    exact ⟨content, toolCalls, reasoning, rfl, (some.inj h).symm⟩
  · exact nomatch h

/-- What shedding does: one turn loses its reasoning. -/
theorem shedOldest_eq_some (h : shedOldest turns = some turns') :
    ∃ before t t' after, takeReasoning t = some t' ∧ turns = before ++ t :: after ∧
      turns' = before ++ t' :: after := by
  induction turns generalizing turns' with
  | nil => exact nomatch h
  | cons t rest ih =>
    unfold shedOldest at h
    split at h
    · next t' ht => exact ⟨[], t, t', rest, ht, rfl, (some.inj h).symm⟩
    · obtain ⟨rest', hrest, rfl⟩ := map_eq_some_iff.mp h
      obtain ⟨before, u, u', after, hu, rfl, rfl⟩ := ih hrest
      exact ⟨t :: before, u, u', after, hu, rfl, rfl⟩

theorem roles_shedOldest (h : shedOldest turns = some turns') :
    roles turns' = roles turns := by
  obtain ⟨before, t, t', after, ht, rfl, rfl⟩ := shedOldest_eq_some h
  obtain ⟨content, toolCalls, reasoning, rfl, rfl⟩ := takeReasoning_eq_some ht
  simp [roles, role]

/-- How many turns still have their reasoning. -/
def reasoned (turns : List Turn) : ℕ := turns.countP fun t ↦ (takeReasoning t).isSome

theorem reasoned_shedOldest (h : shedOldest turns = some turns') :
    reasoned turns = reasoned turns' + 1 := by
  obtain ⟨before, t, t', after, ht, rfl, rfl⟩ := shedOldest_eq_some h
  obtain ⟨content, toolCalls, reasoning, rfl, rfl⟩ := takeReasoning_eq_some ht
  simp only [reasoned, countP_append, countP_cons, takeReasoning]
  simp
  omega

end Maknae.Agent
