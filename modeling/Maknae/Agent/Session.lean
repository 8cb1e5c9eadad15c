import Maknae.Agent.Conversation
import Mathlib.Data.List.TakeWhile

/-!
# Sessions

A session is one conversation over prompts and runs. It takes a prompt only when its last run
answered, and it runs only with a prompt that waits. A run clears both flags before it does anything
else, so that a run that stops or is dropped leaves the session closed: its transcript may have
calls without results, and is never sent again.

So every transcript a session sends is well formed, and passes the admission of the kernel as long
as the prompts have text and the replies were admitted (`sent_wellFormed`).
-/

namespace Maknae.Agent

open Job List
open Kernel (AdmittedTurn TextBlocks admittedReply admittedTurns admittedTurns_eq_ok_iff
  isWhitespace trim)
open Proto

/-- What the session keeps between runs, with the record of its calls. -/
structure Session extends Loop where
  budget : Budget
  answered : Bool
  pending : Bool
  home : Option String

namespace Session

def new (conversation firstPrompt : String) (budget : Budget) (context : ContextBudget)
    (home : Option String) : Session where
  transcript := .new conversation firstPrompt
  seen := ∅
  meter := .new context
  stop := false
  stepsUsed := 0
  clock := 0
  record := []
  budget := budget
  answered := false
  pending := true
  home := home

/-- Take a prompt; none where the session is closed or one waits already. -/
def prompt (s : Session) (text : String) : Option Session :=
  if !s.answered || s.pending then none
  else some { s with transcript := s.transcript.pushUser text, pending := true }

/-- The answer of a run, or the reason it stopped; none where it was dropped. -/
structure Outcome where
  answer : Option String
  stopped : Option StopReason
  stepsUsed : ℕ

def outcome : Except (Halt StopReason) String × Loop → Option Outcome
  | (.ok a, s) => some ⟨some a, none, s.stepsUsed⟩
  | (.error (.error why), s) => some ⟨none, some why, s.stepsUsed⟩
  | (.error _, _) => none

/-- One run. Where it is dropped, what comes after the loop is not done. -/
def run (json : Json) (world : World) (s : Session) : Option Outcome × Session :=
  if !s.pending then (some ⟨none, some .nothingPending, 0⟩, s)
  else
    let ended := driveSession json world s.budget s.home s.toLoop
    let outcome := outcome ended
    (outcome, { s with
      toLoop := ended.2
      pending := false
      answered := outcome.any fun o ↦ o.answer.isSome })

end Session

/-- What a host does with a session. -/
inductive Act
  | prompt (text : String)
  | run

def Act.text? : Act → Option String
  | .prompt text => some text
  | .run => none

namespace Session

variable (json : Json) (world : World)

/-- A prompt that is refused changes nothing. -/
def act (s : Session) : Act → Session
  | .prompt text => (s.prompt text).getD s
  | .run => (s.run json world).2

def acts (s : Session) (as : List Act) : Session := as.foldl (act json world) s

/-! ### What is kept -/

variable {json} {P : String → Prop} {s : Session}

variable (json P) in
/-- A session has a transcript that may be sent, or one that waits for a prompt, or is closed. -/
structure Ok (s : Session) : Prop where
  kept : s.talk.Kept json P
  ready : s.pending → Ready (roles s.talk.turns)
  rested : s.answered → ¬s.pending → ∃ rs, Ready rs ∧ roles s.talk.turns = rs ++ [.assistant []]

theorem ok_new {conversation firstPrompt budget context home} (h : P firstPrompt) :
    (new conversation firstPrompt budget context home).Ok json P where
  kept :=
    { origin := fun _ hturn ↦ mem_singleton.mp hturn ▸ .prompt h
      sent_ready := fun _ hsent ↦ nomatch hsent
      sent_origin := fun _ hsent ↦ nomatch hsent }
  ready _ := .first
  rested h := nomatch h

theorem Ok.prompt (h : s.Ok json P) {text} (htext : P text) {s'}
    (hs' : s.prompt text = some s') : s'.Ok json P := by
  unfold Session.prompt at hs'
  split_ifs at hs' with hclosed
  cases hs'
  have hrested : s.answered ∧ ¬s.pending := by simpa using hclosed
  refine ⟨h.kept.push (.prompt htext), fun _ ↦ ?_, fun _ hpending ↦ absurd rfl hpending⟩
  obtain ⟨rs, hrs, heq⟩ := h.rested hrested.1 hrested.2
  show Ready (roles (s.transcript.push _).turns)
  rw [roles_push, show roles s.transcript.turns = _ from heq, append_assoc]
  exact hrs.next

theorem Ok.run (h : s.Ok json P) : (s.run json world).2.Ok json P := by
  by_cases hpending : s.pending
  · have hdrive := @triple_driveSession json world s.budget s.home P
    have hopen : s.talk.Open json P := ⟨h.kept, h.ready hpending⟩
    unfold Session.run
    rw [if_neg (by simpa using hpending)]
    rcases hrun : driveSession json world s.budget s.home s.toLoop with ⟨e | a, t⟩
    · refine ⟨hdrive.of_error hopen hrun, Bool.noConfusion, fun hanswered ↦ ?_⟩
      cases e <;> exact nomatch hanswered
    · obtain ⟨reply, hcalls, howes⟩ := hdrive.of_ok hopen hrun
      refine ⟨howes.toKept, Bool.noConfusion, fun _ _ ↦ ?_⟩
      obtain ⟨rs, hrs, heq⟩ := howes.roles_eq
      exact ⟨rs, hrs, by rw [hcalls] at heq; exact heq⟩
  · unfold Session.run
    rwa [if_pos (by simpa using hpending)]

theorem Ok.acts {as} (has : ∀ text ∈ as.filterMap Act.text?, P text) (h : s.Ok json P) :
    (s.acts json world as).Ok json P := by
  induction as generalizing s with
  | nil => exact h
  | cons a as ih =>
    cases a with
    | prompt text =>
      have htexts : P text ∧ ∀ text ∈ as.filterMap Act.text?,
        P text := by simpa [Act.text?] using has
      refine ih htexts.2 ?_
      show ((s.prompt text).getD s).Ok json P
      cases hprompt : s.prompt text with
      | none => exact h
      | some s' => exact h.prompt htexts.1 hprompt
    | run => exact ih has (h.run world)

/-! ### Admission -/

end Session

theorem trim_ne_of_mem {s c} (hc : c ∈ s.toList) (hspace : ¬isWhitespace c) :
    trim s ≠ "" := by
  intro htrim
  have hnil : ((s.toList.dropWhile isWhitespace).reverse.dropWhile isWhitespace).reverse = [] :=
    String.ofList_inj.mp htrim
  rw [reverse_eq_nil_iff, dropWhile_eq_nil_iff] at hnil
  rw [← takeWhile_append_dropWhile (l := s.toList)] at hc
  rcases mem_append.mp hc with hc | hc
  · exact hspace (mem_takeWhile_imp hc)
  · exact hspace (hnil c (mem_reverse.mpr hc))

/-- What the model is shown of a call has text in it: the count of the steps that remain. -/
theorem trim_render_ne (json : Json) (outcome : ToolOutcome) (stepsRemaining : ℕ) :
    trim (render json outcome stepsRemaining) ≠ "" := by
  refine @trim_ne_of_mem _ 's' ?_ (by decide)
  simp [render]

theorem admittedReply_eq_ok {reply} (h : admittedReply reply = .ok ()) :
    (reply.blocks ≠ [] ∨ reply.toolCalls ≠ []) ∧ (∀ b ∈ reply.blocks, b.isText) ∧
      (∀ call ∈ reply.toolCalls, proposedToolCallIsAcceptable call) ∧
        reasoningIsAcceptable reply.reasoning := by
  unfold admittedReply at h
  simp only [Except.refuseIf_bind_eq_ok] at h
  obtain ⟨hempty, htext, hcalls, hreasoning⟩ := h
  refine ⟨by tauto, ?_, ?_, by simpa using hreasoning⟩
  · simpa using htext
  · simpa using hcalls

theorem textBlocks_singleton {text} (h : trim text ≠ "") : TextBlocks [.text text] where
  isText b hb := by rw [mem_singleton.mp hb]; rfl
  not_blank := by simpa [Kernel.ContentBlock.blank] using h

/-- A turn passes the admission of the kernel if the prompts have text and the replies did. -/
theorem Origin.admitted {json} {P : String → Prop} {replies} {t}
    (h : Origin json P replies t) (hP : ∀ text, P text → trim text ≠ "")
    (hreplies : ∀ reply ∈ replies, admittedReply reply = .ok ()) :
    turnIsAcceptable t ∧ AdmittedTurn t := by
  cases h with
  | prompt htext => exact ⟨rfl, textBlocks_singleton (hP _ htext)⟩
  | @reply reply reasoning hreply hreasoning =>
    obtain ⟨hne, htext, hcalls, hbound⟩ := admittedReply_eq_ok (hreplies reply hreply)
    refine ⟨?_, htext⟩
    have hreasoning' : reasoningIsAcceptable reasoning := by
      rcases hreasoning with rfl | rfl
      · exact hbound
      · rfl
    simp only [turnIsAcceptable, Bool.and_eq_true, Bool.or_eq_true, decide_eq_true_eq, all_eq_true]
    exact ⟨⟨hne, hcalls⟩, hreasoning'⟩
  | @result reply call hreply hcall outcome stepsRemaining =>
    obtain ⟨-, -, hcalls, -⟩ := admittedReply_eq_ok (hreplies reply hreply)
    have hid := hcalls call hcall
    refine ⟨?_, textBlocks_singleton (trim_render_ne json outcome stepsRemaining)⟩
    simp only [proposedToolCallIsAcceptable, turnIsAcceptable, Bool.and_eq_true,
      decide_eq_true_eq] at hid ⊢
    exact ⟨⟨hid.1.1.2, hid.1.2⟩, cons_ne_nil _ _⟩

theorem role_eq_user {t} (h : role t = .user) : ∃ content, t = .user content := by
  cases t with
  | user content => exact ⟨content, rfl⟩
  | assistant content toolCalls reasoning | tool callId content => exact nomatch h

/-- **Every transcript a session sends is well formed**, whatever the plane answers and wherever its
runs stop or are dropped. Where the prompts have text and the replies were admitted, it passes the
admission of the kernel. -/
theorem Session.sent_wellFormed (json : Json) (world : World) (conversation firstPrompt : String)
    (budget : Budget) (context : ContextBudget) (home : Option String) (as : List Act)
    (turns : List Turn)
    (hsent : turns ∈
      ((new conversation firstPrompt budget context home).acts json world as).talk.sent) :
    WellFormed (roles turns) ∧
      ((∀ text ∈ firstPrompt :: as.filterMap Act.text?, trim text ≠ "") →
        (∀ reply ∈
          ((new conversation firstPrompt budget context home).acts json world as).talk.replies,
          admittedReply reply = .ok ()) →
        admittedTurns turns = .ok ()) := by
  let P : String → Prop := fun text ↦ text ∈ firstPrompt :: as.filterMap Act.text?
  have hok : ((new conversation firstPrompt budget context home).acts json world as).Ok json P :=
    Ok.acts world (fun text htext ↦ List.mem_cons_of_mem _ htext) (ok_new List.mem_cons_self)
  have hwell := (hok.kept.sent_ready turns hsent).wellFormed
  refine ⟨hwell, fun hprompts hreplies ↦ admittedTurns_eq_ok_iff.mpr ?_⟩
  have hadmitted : ∀ t ∈ turns, turnIsAcceptable t ∧ AdmittedTurn t := fun t ht ↦
    (hok.kept.sent_origin turns hsent t ht).admitted hprompts hreplies
  refine ⟨?_, fun t ht ↦ (hadmitted t ht).1, fun t ht ↦ (hadmitted t ht).2⟩
  obtain ⟨first, hfirst, hrole⟩ :=
    Option.map_eq_some_iff.mp (List.head?_map.symm.trans hwell.begins)
  obtain ⟨rest, rfl⟩ := List.head?_eq_some_iff.mp hfirst
  obtain ⟨content, rfl⟩ := role_eq_user hrole
  exact ⟨content, rest, rfl⟩

/-- A plane that proposes one call and answers from then on. -/
def oneCall : World where
  stop _ := false
  prompt n := some (.ok
    (if n = 2 then ⟨[], [⟨"list_files", "c1", "", none⟩], none, none⟩
      else ⟨[.text "done"], [], none, none⟩))
  read _ := none
  write _ := none

/-- A library that decodes and encodes nothing. -/
def noJson : Json where
  readArgs _ := .error "no"
  writeArgs _ := .error "no"
  encode _ := none

/-- The last transcript of a session with two prompts on that plane. -/
def lastSent : List Turn :=
  [.user [.text "hello"], .assistant [] [⟨"list_files", "c1", "", none⟩] none,
    .tool "c1" [.text "tool error: unknown tool list_files\n\nsteps remaining: 2"],
    .assistant [.text "done"] [] none, .user [.text "more"]]

theorem Session.sent_wellFormed_lastSent :
    WellFormed (roles lastSent) ∧ admittedTurns lastSent = .ok () := by
  obtain ⟨hwell, hadmitted⟩ := sent_wellFormed noJson oneCall "c" "hello" ⟨3, 1⟩
    ⟨4096, none, by decide, by decide, by decide⟩ none [.run, .prompt "more", .run] lastSent
    (by decide +kernel)
  exact ⟨hwell, hadmitted (by decide +kernel) (by decide +kernel)⟩

end Maknae.Agent
