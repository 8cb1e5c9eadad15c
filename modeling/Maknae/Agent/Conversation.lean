import Maknae.Agent.Drive
import Maknae.Kernel.EgressSocket

/-!
# What a run says

Of all that the loop works on, a provider sees the transcripts it sends. They are part of the talk
of a loop: the transcript, the transcripts sent so far and the replies that came back. Most of what
the loop does leaves the talk alone (`Quiet`).

Two things are kept along a run, wherever it ends (`Talk.Kept`). Every transcript was sent with all
calls answered, and every turn has an `Origin`: a prompt of the user, a reply, or a call of a reply
with the text that `render` made for it. A run that begins with a transcript that may be sent and
ends with an answer leaves one that ends with a reply without calls (`triple_driveSession`).
-/

namespace Maknae.Agent

open Job List
open Proto

/-! ### The talk of a loop -/

/-- The turns of a prompt. -/
def Asked.sent? : Asked → Option (List Turn)
  | .prompt turns _ => some turns
  | _ => none

/-- The reply to a prompt. -/
def Asked.reply? : Asked → Option PromptReply
  | .prompt _ (some (.ok reply)) => some reply
  | _ => none

/-- What a run has exchanged with the model. -/
structure Talk where
  turns : List Turn
  sent : List (List Turn)
  replies : List PromptReply

def Loop.talk (s : Loop) : Talk where
  turns := s.transcript.turns
  sent := s.record.filterMap Asked.sent?
  replies := s.record.filterMap Asked.reply?

/-- A part of a run that leaves the talk alone. -/
def Quiet {α : Type} (x : Run α) : Prop :=
  ∀ t, Triple (fun s ↦ s.talk = t) x (fun _ s ↦ s.talk = t) fun _ s ↦ s.talk = t

section Quiet

variable {α β : Type} {x : Run α}

theorem Quiet.bind {f : α → Run β} (hx : Quiet x) (hf : ∀ a, Quiet (f a)) : Quiet (x >>= f) :=
  fun t ↦ (hx t).bind fun a ↦ hf a t

theorem quiet_pure (a : α) : Quiet (pure a : Run α) := fun _ ↦ triple_pure fun _ hs ↦ hs

theorem quiet_state : Quiet (state : Run Loop) := fun _ _ hs ↦ hs

theorem quiet_change {f : Loop → Loop} (h : ∀ s, (f s).talk = s.talk) :
    Quiet (change f : Run PUnit) := fun _ ↦ triple_change fun s hs ↦ (h s).trans hs

theorem quiet_refuseIf (c : Prop) [Decidable c] (why : StopReason) :
    Quiet (refuseIf c why : Run PUnit) := fun _ ↦
  (triple_refuseIf fun _ _ hs ↦ hs).mono (fun _ hs ↦ hs) (fun _ _ hs ↦ hs.2) fun _ _ hs ↦ hs

/-- What holds of the talk holds after a quiet part, and also if the run stops there. -/
theorem Quiet.triple (hx : Quiet x) (A : Talk → Prop) {B : Talk → Prop} (hAB : ∀ t, A t → B t) :
    Triple (fun s ↦ A s.talk) x (fun _ s ↦ A s.talk) fun _ s ↦ B s.talk := fun s hs ↦
  (hx s.talk).mono (fun _ hs ↦ hs) (fun _ _ ht ↦ ht ▸ hs) (fun _ _ ht ↦ hAB _ (ht ▸ hs)) s rfl

end Quiet

variable (json : Json) (world : World) (budget : Budget) (home : Option String)

theorem quiet_loadStop : Quiet (loadStop world) := fun _ _ hs ↦ hs

theorem quiet_checkStop : Quiet (checkStop world) :=
  (quiet_loadStop world).bind fun _ ↦ quiet_refuseIf _ _

/-- What a call adds to the talk. -/
theorem Loop.talk_asked (s : Loop) (entry : Asked) :
    (s.asked entry).talk = { s.talk with
      sent := s.talk.sent ++ entry.sent?.toList
      replies := s.talk.replies ++ entry.reply?.toList } := by
  have hentry : ∀ {β : Type} (f : Asked → Option β), [entry].filterMap f = (f entry).toList := by
    intro β f
    cases h : f entry <;> simp [h]
  simp only [Loop.talk, Loop.asked, filterMap_append, hentry]

variable {α : Type} {reply : PromptReply} {stepsRemaining : ℕ}

/-- A call that is no prompt is quiet. -/
theorem quiet_ask {call : Option α → Asked} {answer : ℕ → Option α}
    (hsent : ∀ a, (call a).sent? = none) (hreply : ∀ a, (call a).reply? = none) :
    Quiet (ask call answer) := by
  have htalk : ∀ (s : Loop) a, (s.asked (call a)).talk = s.talk := fun s a ↦ by
    simp [Loop.talk_asked, hsent, hreply]
  exact fun t ↦ triple_ask (fun s a hs ↦ (htalk s (some a)).trans hs) fun s hs ↦
    (htalk s none).trans hs

theorem quiet_meterGate : Quiet meterGate := by
  refine quiet_state.bind fun s ↦ Quiet.bind (quiet_change ?_) fun _ ↦ quiet_refuseIf _ _
  exact fun _ ↦ rfl

theorem quiet_setSeen (f : Seen → Seen) : Quiet (setSeen f) := quiet_change fun _ ↦ rfl

theorem quiet_runRead (path : String) (page : Kernel.PageRequest) :
    Quiet (runRead world path page) := by
  refine (quiet_ask (fun _ ↦ rfl) fun _ ↦ rfl).bind fun outcome ↦ ?_
  cases outcome with
  | content p => exact quiet_state.bind fun _ ↦ (quiet_setSeen _).bind fun _ ↦ quiet_pure _
  | refused | unavailable => exact quiet_pure _

theorem quiet_runWrite (path : String) (content : List UInt8) :
    Quiet (runWrite world path content) := by
  refine quiet_state.bind fun s ↦ (quiet_ask (fun _ ↦ rfl) fun _ ↦ rfl).bind fun outcome ↦ ?_
  cases outcome with
  | applied version =>
    cases version with
    | some v | none => exact (quiet_setSeen _).bind fun _ ↦ quiet_pure _
  | stale =>
    refine (quiet_setSeen _).bind fun _ ↦ ?_
    cases s.seen[path]? with
    | some v | none => exact quiet_pure _
  | unknown | notSent => exact quiet_pure _

theorem quiet_runRequest (call : ProposedToolCall) : Quiet (runRequest json world home call) := by
  unfold runRequest
  split
  · exact quiet_pure _
  · exact quiet_runRead world _ _
  · exact quiet_runWrite world _ _

theorem quiet_runOrSkip (call : ProposedToolCall) : Quiet (runOrSkip json world home call) := by
  refine (quiet_loadStop world).bind fun stop ↦ ?_
  split
  · exact quiet_pure _
  · exact quiet_runRequest json world home call

/-! ### What is kept -/

/-- Where a turn comes from: a prompt, a reply, or a call of a reply. -/
inductive Origin (P : String → Prop) (replies : List PromptReply) : Turn → Prop
  | prompt {text : String} (htext : P text) : Origin P replies (.user [.text text])
  | reply {reply : PromptReply} {reasoning : Option String} (hreply : reply ∈ replies)
      (hreasoning : reasoning = reply.reasoning ∨ reasoning = none) :
      Origin P replies (.assistant reply.blocks reply.toolCalls reasoning)
  | result {reply : PromptReply} {call : ProposedToolCall} (hreply : reply ∈ replies)
      (hcall : call ∈ reply.toolCalls) (outcome : ToolOutcome) (stepsRemaining : ℕ) :
      Origin P replies (.tool call.callId [.text (render json outcome stepsRemaining)])

variable {json} {P : String → Prop}

/-- A turn keeps its origin as replies come in. -/
theorem Origin.mono {replies replies'} (h : replies ⊆ replies') {t}
    (ht : Origin json P replies t) : Origin json P replies' t := by
  cases ht with
  | prompt htext => exact .prompt htext
  | reply hreply hreasoning => exact .reply (h hreply) hreasoning
  | result hreply hcall outcome stepsRemaining =>
    exact .result (h hreply) hcall outcome stepsRemaining

/-- A reply without its reasoning is still of that reply. -/
theorem Origin.of_takeReasoning {replies t t'}
    (ht : Origin json P replies t) (h : takeReasoning t = some t') : Origin json P replies t' := by
  obtain ⟨content, toolCalls, reasoning, rfl, rfl⟩ := takeReasoning_eq_some h
  cases ht with
  | reply hreply hreasoning => exact .reply hreply (.inr rfl)

variable (json P) in
/-- What is kept along a run. -/
structure Talk.Kept (t : Talk) : Prop where
  origin : ∀ turn ∈ t.turns, Origin json P t.replies turn
  sent_ready : ∀ turns ∈ t.sent, Ready (roles turns)
  sent_origin : ∀ turns ∈ t.sent, ∀ turn ∈ turns, Origin json P t.replies turn

namespace Talk.Kept

variable {t : Talk}

/-- A turn of known origin is added. -/
theorem push (h : t.Kept json P) {turn} (hturn : Origin json P t.replies turn) :
    Kept json P { t with turns := t.turns ++ [turn] } where
  origin := forall_mem_concat.mpr ⟨h.origin, hturn⟩
  sent_ready := h.sent_ready
  sent_origin := h.sent_origin

/-- The oldest reasoning is shed. -/
theorem shed (h : t.Kept json P) {turns} (hshed : shedOldest t.turns = some turns) :
    Kept json P { t with turns } where
  origin := by
    obtain ⟨before, u, u', after, hu, hturns, rfl⟩ := shedOldest_eq_some hshed
    have horigin := h.origin
    rw [hturns, forall_mem_append, forall_mem_cons] at horigin
    obtain ⟨hbefore, hat, hafter⟩ := horigin
    exact forall_mem_append.mpr ⟨hbefore, forall_mem_cons.mpr
      ⟨hat.of_takeReasoning hu, hafter⟩⟩
  sent_ready := h.sent_ready
  sent_origin := h.sent_origin

/-- The transcript is sent, and a reply may come back. -/
theorem send (h : t.Kept json P) (hready : Ready (roles t.turns)) (replies : List PromptReply) :
    Kept json P { t with sent := t.sent ++ [t.turns], replies := t.replies ++ replies } where
  origin turn hturn := (h.origin turn hturn).mono (subset_append_left ..)
  sent_ready := forall_mem_append.mpr
    ⟨h.sent_ready, fun turns hturns ↦ mem_singleton.mp hturns ▸ hready⟩
  sent_origin := by
    refine forall_mem_append.mpr ⟨fun turns hturns turn hturn ↦ ?_, fun turns hturns ↦ ?_⟩
    · exact (h.sent_origin turns hturns turn hturn).mono (subset_append_left ..)
    · rw [mem_singleton.mp hturns]
      exact fun turn hturn ↦ (h.origin turn hturn).mono (subset_append_left ..)

end Talk.Kept

/-! ### The run -/

variable (json P) in
/-- Nothing is owed: the transcript may be sent. -/
structure Talk.Open (t : Talk) : Prop extends t.Kept json P where
  ready : Ready (roles t.turns)

theorem Quiet.open {x : Run α} (hx : Quiet x) :
    Triple (fun s ↦ s.talk.Open json P) x (fun _ s ↦ s.talk.Open json P)
      fun _ s ↦ s.talk.Kept json P :=
  hx.triple (Talk.Open json P) fun _ ↦ Talk.Open.toKept

variable (json P) in
/-- The last reply is in the transcript, with the results of the calls that were run. -/
structure Talk.Owes (reply : PromptReply) (run : List ProposedToolCall) (t : Talk) : Prop
    extends t.Kept json P where
  reply_mem : reply ∈ t.replies
  roles_eq : ∃ rs, Ready rs ∧ roles t.turns =
    rs ++ .assistant (reply.toolCalls.map ProposedToolCall.callId) ::
      (run.map ProposedToolCall.callId).map .tool

/-- All calls are run: the next prompt may be sent. -/
theorem Talk.Owes.open {t : Talk} (h : t.Owes json P reply reply.toolCalls)
    (hcalls : reply.toolCalls ≠ []) : t.Open json P where
  toKept := h.toKept
  ready := by
    obtain ⟨rs, hrs, heq⟩ := h.roles_eq
    rw [heq]
    exact hrs.answered (mt map_eq_nil_iff.mp hcalls)

/-- One prompt sends the transcript as it is. -/
theorem triple_prompt :
    Triple (fun s ↦ s.talk.Open json P) (prompt world)
      (fun sent s ↦ s.talk.Open json P ∧ ∀ reply, sent = .ok reply → reply ∈ s.talk.replies)
      fun _ s ↦ s.talk.Kept json P := by
  refine triple_state.bind fun s ↦ ?_
  have hkept : ∀ t : Loop, s = t ∧ t.talk.Open json P → ∀ answer,
      (t.asked (.prompt s.transcript.turns answer)).talk.Open json P := by
    rintro t ⟨rfl, hopen⟩ answer
    rw [Loop.talk_asked]
    exact ⟨hopen.toKept.send hopen.ready _, hopen.ready⟩
  refine triple_ask (fun t sent ht ↦ ⟨hkept t ht _, ?_⟩) fun t ht ↦ (hkept t ht none).toKept
  rintro reply rfl
  rw [Loop.talk_asked]
  exact mem_append_right _ (mem_singleton.mpr rfl)

variable (json P) in
/-- A prompt was sent, and its reply is on record. -/
def Sent (sent : Except PlaneError PromptReply) (s : Loop) : Prop :=
  s.talk.Open json P ∧ ∀ reply, sent = .ok reply → reply ∈ s.talk.replies

/-- A prompt that is refused for its size may shed and go again. -/
theorem triple_sendOrShed {again : Run (Except PlaneError PromptReply)}
    (hagain : Triple (fun s ↦ s.talk.Open json P) again (Sent json P)
      fun _ s ↦ s.talk.Kept json P) :
    Triple (fun s ↦ s.talk.Open json P) (sendOrShed world again) (Sent json P)
      fun _ s ↦ s.talk.Kept json P := by
  refine (triple_prompt world).bind fun sent ↦ ?_
  split
  · refine ((quiet_checkStop world).open.of_imp fun s hs ↦ hs.1).bind fun _ ↦ triple_state.bind
      fun s ↦ ?_
    split
    · next shed hshed =>
      refine (triple_change ?_).bind fun _ ↦ hagain
      rintro _ ⟨rfl, hopen⟩
      obtain ⟨turns, hturns, rfl⟩ := Option.map_eq_some_iff.mp hshed
      exact ⟨hopen.toKept.shed hturns, (roles_shedOldest hturns).symm ▸ hopen.ready⟩
    · exact triple_pure fun _ hs ↦ ⟨hs.2, fun reply h ↦ nomatch h⟩
  · exact triple_pure fun s hs ↦ hs

theorem triple_promptShedding (fuel : ℕ) :
    Triple (fun s ↦ s.talk.Open json P) (promptShedding world fuel) (Sent json P)
      fun _ s ↦ s.talk.Kept json P := by
  induction fuel with
  | zero =>
    exact triple_sendOrShed world (triple_pure fun s hs ↦ ⟨hs, fun reply h ↦ nomatch h⟩)
  | succ fuel ih => exact triple_sendOrShed world ih

theorem triple_nextReply :
    Triple (fun s ↦ s.talk.Open json P) (nextReply world)
      (fun reply s ↦ s.talk.Open json P ∧ reply ∈ s.talk.replies)
      fun _ s ↦ s.talk.Kept json P := by
  refine quiet_state.open.bind fun s ↦
    (triple_promptShedding world _).bind fun sent ↦ ?_
  cases sent with
  | ok reply =>
    have hmeter : Quiet (change fun s ↦ { s with
        meter := s.meter.record s.transcript.bytes reply.usage } : Run PUnit) :=
      quiet_change fun _ ↦ rfl
    refine ((hmeter.triple (fun t ↦ t.Open json P ∧ reply ∈ t.replies) fun _ h ↦ h.1.toKept).of_imp
      fun s hs ↦ ⟨hs.1, hs.2 reply rfl⟩).bind fun _ ↦ triple_pure fun _ hs ↦ hs
  | error e => exact triple_fail fun s hs ↦ hs.1.toKept

/-- The model's reply is the next turn, and its calls are owed. -/
theorem triple_takeReply (reply : PromptReply) :
    Triple (fun s ↦ s.talk.Open json P ∧ reply ∈ s.talk.replies) (takeReply reply)
      (fun _ s ↦ s.talk.Owes json P reply []) fun _ s ↦ s.talk.Kept json P := by
  have hcount : Quiet (change fun s ↦ { s with stepsUsed := s.stepsUsed + 1 } : Run PUnit) :=
    quiet_change fun _ ↦ rfl
  refine (hcount.triple (fun t ↦ t.Open json P ∧ reply ∈ t.replies) fun _ h ↦ h.1.toKept).bind
    fun _ ↦ triple_change ?_
  rintro s ⟨hopen, hreply⟩
  exact ⟨hopen.toKept.push (.reply hreply (.inl rfl)), hreply, _, hopen.ready,
    roles_push s.transcript _⟩

/-- A call is answered by one result. -/
theorem triple_runCall {run call}
    (hcall : call ∈ reply.toolCalls) (stepsRemaining : ℕ) :
    Triple (fun s ↦ s.talk.Owes json P reply run) (runCall json world home stepsRemaining call)
      (fun _ s ↦ s.talk.Owes json P reply (run ++ [call])) fun _ s ↦ s.talk.Kept json P := by
  refine ((quiet_runOrSkip json world home call).triple (Talk.Owes json P reply run)
    fun _ ↦ Talk.Owes.toKept).bind fun outcome ↦ triple_change ?_
  intro s hs
  obtain ⟨rs, hrs, heq⟩ := hs.roles_eq
  refine ⟨hs.toKept.push (.result hs.reply_mem hcall outcome stepsRemaining), hs.reply_mem,
    rs, hrs, (roles_push s.transcript _).trans ?_⟩
  rw [show roles s.transcript.turns = _ from heq, append_assoc, map_append, map_append]
  rfl

theorem step_eq_answer {a} (h : step reply stepsRemaining budget = .answer a) :
    reply.toolCalls = [] := by
  unfold step at h
  split_ifs at h with hcalls
  exact hcalls

theorem step_eq_execute {calls}
    (h : step reply stepsRemaining budget = .execute calls) :
    reply.toolCalls ≠ [] ∧ calls = reply.toolCalls := by
  unfold step at h
  split_ifs at h with hcalls
  exact ⟨hcalls, (Next.execute.inj h).symm⟩

/-- **The loop.** Wherever it ends, what was sent was well formed; with an answer, the transcript
ends with a reply without calls. -/
theorem triple_driveFrom (stepsRemaining : ℕ) :
    Triple (fun s ↦ s.talk.Open json P) (driveFrom json world budget home stepsRemaining)
      (fun _ s ↦ ∃ reply, reply.toolCalls = [] ∧ s.talk.Owes json P reply [])
      fun _ s ↦ s.talk.Kept json P := by
  induction stepsRemaining with
  | zero => exact (quiet_checkStop world).open.bind fun _ ↦ triple_fail fun s hs ↦ hs.toKept
  | succ stepsRemaining ih =>
    refine (quiet_checkStop world).open.bind fun _ ↦ quiet_meterGate.open.bind fun _ ↦
      (quiet_checkStop world).open.bind fun _ ↦ (triple_nextReply world).bind fun reply ↦
        (triple_takeReply reply).bind fun _ ↦ ?_
    split
    · next hstep => exact triple_pure fun s hs ↦ ⟨reply, step_eq_answer budget hstep, hs⟩
    · exact triple_fail fun s hs ↦ hs.toKept
    · next hstep =>
      obtain ⟨hcalls, rfl⟩ := step_eq_execute budget hstep
      refine (triple_forM (P := fun run (s : Loop) ↦ s.talk.Owes json P reply run) ?_).bind
        fun _ ↦ ih.of_imp fun s hs ↦ hs.open hcalls
      intro run call rest heq
      exact triple_runCall world home (by simp [heq]) stepsRemaining

theorem triple_driveSession :
    Triple (fun s ↦ s.talk.Open json P) (driveSession json world budget home)
      (fun _ s ↦ ∃ reply, reply.toolCalls = [] ∧ s.talk.Owes json P reply [])
      fun _ s ↦ s.talk.Kept json P := by
  have hcount : Quiet (change fun s ↦ { s with stepsUsed := 0 } : Run PUnit) :=
    quiet_change fun _ ↦ rfl
  exact hcount.open.bind fun _ ↦ triple_driveFrom world budget home budget.maxSteps

end Maknae.Agent
