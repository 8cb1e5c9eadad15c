import Maknae.Agent.Budget
import Maknae.Agent.Route
import Maknae.Agent.Transcript
import Maknae.Foundation.Job

/-!
# The agent loop

One run of the loop sends the transcript, takes the reply into it, runs the calls the reply proposes
and goes on, until the model answers or a bound is reached. Every call goes to a plane that may
answer anything, and the run may be dropped while it waits for an answer. The host may ask the loop
to stop at any time; the loop looks at that request before each call it has not made.

The answers of the plane, and the moments at which the host asks to stop, come from a `World`: it is
asked at a clock that moves with each question. What was asked and answered is recorded, and the
record only grows.
-/

namespace Maknae.Agent

open Job
open Kernel (PageRequest maxMutationPathBytes)
open Proto

/-! ### The plane -/

/-- The key of a file version: device, inode, size, two of the time of writing, two of the time of
change. -/
abbrev Version := Vector Int64 7

/-- Equal up to the time of change. -/
def sameContent (a b : Version) : Bool := a.toList.take 5 == b.toList.take 5

structure ReadPage where
  content : List UInt8
  level : String
  lines : Option (ℕ × ℕ)
  completeLine : Bool
  next : Option (ℕ × ℕ)
  eof : Bool
  version : Version
  changed : Bool

inductive ReadOutcome
  | content (page : ReadPage)
  | refused
  | unavailable

inductive WriteOutcome
  | applied (version : Option Version)
  | stale
  | unknown
  | notSent

/-- What the loop knows of a file it is about to replace. -/
inductive ReadBasis
  | unread
  | read (version : Version)

inductive PlaneError
  | frameTooLarge
  | transport (message : String)
  | refused
  | malformed
  | replyUnusable (defect : ReplyDefect)
  | unavailable

/-! ### What the model is shown -/

inductive ToolOutcome
  | readContent (page : ReadPage)
  | readRefused
  | readUnavailable
  | writeApplied
  | writeStale
  | writeUnread
  | writeUnknown
  | writeNotSent
  | notRun
  | badCall (why : String)

/-- A page as it is encoded for the model. -/
structure PageJson where
  content : Option String
  binary : Option ℕ
  level : String
  firstLine : Option ℕ
  lastLine : Option ℕ
  completeLine : Bool
  next : Option (ℕ × ℕ)
  eof : Bool
  changed : Bool

/-- The JSON library: the arguments of calls, and the text of a page. -/
structure Json extends ArgsDecoder where
  encode : PageJson → Option String

def notAuthorized : String := "Not authorized"
def applied : String := "applied"
def outcomeUnknown : String :=
  "outcome unknown — the write may have happened: do not retry it, do not assume the previous " ++
    "contents survived, and do not touch that file again"
def notWrittenStale : String :=
  "not written — the file changed since you read it; read it again, then write"
def notWrittenUnread : String :=
  "not written — the file exists and you have not read it; read it first, then write"
def readUnavailable : String := "read unavailable — do not retry"
def writeNotSent : String := "tool error: write not sent — content exceeds the frame bound"
def notRun : String := "not run: the loop was stopped"

section Render

variable (json : Json)

/-- Bytes that are not text are never shown, only counted. -/
def pageJson (page : ReadPage) : String :=
  let text := ofUtf8Bytes page.content
  let view : PageJson :=
    { content := text
      binary := if text.isNone then some page.content.length else none
      level := page.level
      firstLine := page.lines.map Prod.fst
      lastLine := page.lines.map Prod.snd
      completeLine := page.completeLine
      next := page.next
      eof := page.eof
      changed := page.changed }
  (json.encode view).getD readUnavailable

def renderBody : ToolOutcome → String
  | .readContent page => pageJson json page
  | .readRefused => notAuthorized
  | .readUnavailable => readUnavailable
  | .writeApplied => applied
  | .writeStale => notWrittenStale
  | .writeUnread => notWrittenUnread
  | .writeUnknown => outcomeUnknown
  | .writeNotSent => writeNotSent
  | .notRun => notRun
  | .badCall why => "tool error: " ++ why

def render (outcome : ToolOutcome) (stepsRemaining : ℕ) : String :=
  renderBody json outcome ++ "\n\nsteps remaining: " ++ toString stepsRemaining

end Render

def badCall : RouteError → String
  | .unknownTool n => "unknown tool " ++ n
  | .badArguments m => m
  | .argumentsOverBound n =>
    let max := maxToolCallArgsBytes
    s!"arguments were {n} bytes, over the {max}-byte limit; nothing was run. " ++
      s!"A single call cannot carry more than {max} bytes; " ++
      "retrying the same content will be refused again."
  | .emptyPath => "empty path"
  | .relativePath => "path must be absolute, or start with ~/ for your home"
  | .homeUnavailable =>
    "home-relative paths are unavailable in this session; use an absolute path"
  | .malformedPath =>
    "path must be canonical: no empty, \".\" or \"..\" segments and no trailing \"/\"; " ++
      s!"at most {maxMutationPathBytes} bytes and no NUL byte"

/-! ### The step -/

structure Budget where
  maxSteps : ℕ
  maxToolCallsPerStep : ℕ

inductive StopReason
  | stepBudget
  | tooManyToolCalls (n : ℕ)
  | frameBound
  | promptRefused
  | promptMalformed
  | replyUnusable (defect : ReplyDefect)
  | egressUnavailable
  | transport (message : String)
  | contextBudget
  | stopped
  | nothingPending

inductive Next
  | answer (text : String)
  | execute (calls : List ProposedToolCall)
  | stop (why : StopReason)

def textOf (blocks : List ContentBlock) : String :=
  .join (blocks.filterMap fun b ↦ match b with | .text text => some text | _ => none)

/-- Never a part of the calls: the model would be left with a half-answered turn. -/
def step (reply : PromptReply) (stepsRemaining : ℕ) (budget : Budget) : Next :=
  if reply.toolCalls = [] then .answer (textOf reply.blocks)
  else if stepsRemaining = 0 then .stop .stepBudget
  else if budget.maxToolCallsPerStep < reply.toolCalls.length then
    .stop (.tooManyToolCalls reply.toolCalls.length)
  else .execute reply.toolCalls

/-! ### The run -/

abbrev Seen := Std.ExtTreeMap String Version compare

/-- A call to the plane with its answer; none where the run was dropped while it waited. -/
inductive Asked
  | prompt (turns : List Turn) (answer : Option (Except PlaneError PromptReply))
  | read (path : String) (page : PageRequest) (answer : Option ReadOutcome)
  | write (path : String) (content : List UInt8) (basis : ReadBasis) (answer : Option WriteOutcome)

/-- What the loop works on, with the clock of its questions and the record of its calls. -/
structure Loop where
  transcript : Transcript
  seen : Seen
  meter : Meter
  stop : Bool
  stepsUsed : ℕ
  clock : ℕ
  record : List Asked

def Loop.asked (s : Loop) (entry : Asked) : Loop :=
  { s with clock := s.clock + 1, record := s.record ++ [entry] }

/-- The answers to the loop's questions, by the clock. -/
structure World where
  /-- The host asked to stop before this question. -/
  stop : ℕ → Bool
  prompt : ℕ → Option (Except PlaneError PromptReply)
  read : ℕ → Option ReadOutcome
  write : ℕ → Option WriteOutcome

/-- A run ends with an answer, stops for a reason, or is dropped (`Halt.unfinished`). -/
abbrev Run := Job (Halt StopReason) Loop

def edit (f : Transcript → Transcript) : Run PUnit :=
  change fun s ↦ { s with transcript := f s.transcript }

section Loop

variable (json : Json) (world : World) (budget : Budget) (home : Option String)

/-- Look at the host's request. It is never withdrawn. -/
def loadStop : Run Bool := fun s ↦
  let stop := s.stop || world.stop s.clock
  (.ok stop, { s with stop, clock := s.clock + 1 })

/-- Stop here if the host asked to. -/
def checkStop : Run PUnit := do
  refuseIf (← loadStop world) .stopped

/-- Call the plane and wait. -/
def ask {α : Type} (call : Option α → Asked) (answer : ℕ → Option α) : Run α := fun s ↦
  match answer s.clock with
  | some a => (.ok a, s.asked (call (some a)))
  | none => (.error .unfinished, s.asked (call none))

theorem triple_ask {α : Type} {call : Option α → Asked} {answer : ℕ → Option α} {P : Loop → Prop}
    {Q : α → Loop → Prop} {E : Halt StopReason → Loop → Prop}
    (hsome : ∀ s a, P s → Q a (s.asked (call (some a))))
    (hnone : ∀ s, P s → E .unfinished (s.asked (call none))) : Triple P (ask call answer) Q E := by
  intro s hs
  cases h : answer s.clock with
  | some a =>
    simp only [ask, h]
    exact hsome s a hs
  | none =>
    simp only [ask, h]
    exact hnone s hs

def askRead (path : String) (page : PageRequest) : Run ReadOutcome :=
  ask (.read path page) world.read

def askWrite (path : String) (content : List UInt8) (basis : ReadBasis) : Run WriteOutcome :=
  ask (.write path content basis) world.write

/-- Send the transcript. -/
def prompt : Run (Except PlaneError PromptReply) := do
  let s ← state
  ask (.prompt s.transcript.turns) world.prompt

/-- Send the transcript; where it is too large, shed the oldest reasoning and go on. -/
def sendOrShed (again : Run (Except PlaneError PromptReply)) :
    Run (Except PlaneError PromptReply) := do
  match ← prompt world with
  | .error .frameTooLarge =>
    checkStop world
    match (← state).transcript.shedOldestReasoning with
    | some shed =>
      edit fun _ ↦ shed
      again
    | none => pure (.error .frameTooLarge)
  | sent => pure sent

/-- The loop of these, as many rounds as there is reasoning to shed. -/
def promptShedding : ℕ → Run (Except PlaneError PromptReply)
  | 0 => sendOrShed world (pure (.error .frameTooLarge))
  | fuel + 1 => sendOrShed world (promptShedding fuel)

/-- Neither a prompt nor a look at the stop request changes the transcript. -/
theorem triple_prompt_transcript (t : Transcript) :
    Triple (fun s ↦ s.transcript = t) (prompt world) (fun _ s ↦ s.transcript = t) fun _ _ ↦ True :=
  triple_state.bind fun _ ↦ triple_ask (fun _ _ hs ↦ hs.2) fun _ _ ↦ trivial

theorem triple_checkStop_transcript (t : Transcript) :
    Triple (fun s ↦ s.transcript = t) (checkStop world) (fun _ s ↦ s.transcript = t)
      fun _ _ ↦ True := by
  have hload : Triple (fun s : Loop ↦ s.transcript = t) (loadStop world)
      (fun _ s ↦ s.transcript = t) fun _ _ ↦ True := fun _ hs ↦ hs
  exact hload.bind fun _ ↦ (triple_refuseIf fun _ _ _ ↦ trivial).mono (fun _ ↦ id)
    (fun _ _ hs ↦ hs.2) fun _ _ ↦ id

/-- The rest of the rounds starts with less reasoning. -/
theorem sendOrShed_congr {s : Loop} {again again' : Run (Except PlaneError PromptReply)}
    (h : ∀ s', reasoned s'.transcript.turns < reasoned s.transcript.turns → again s' = again' s') :
    sendOrShed world again s = sendOrShed world again' s := by
  refine bind_congr fun sent t hsent ↦ ?_
  have ht := (triple_prompt_transcript world _).of_ok rfl hsent
  split
  · refine bind_congr fun _ u hstop ↦ ?_
    have hu := (triple_checkStop_transcript world _).of_ok ht hstop
    show (match u.transcript.shedOldestReasoning with | some _ => _ | none => _ : Run _) u =
      (match u.transcript.shedOldestReasoning with | some _ => _ | none => _ : Run _) u
    cases hshed : u.transcript.shedOldestReasoning with
    | none => rfl
    | some shed =>
      obtain ⟨turns, hturns, rfl⟩ := Option.map_eq_some_iff.mp hshed
      have hless := reasoned_shedOldest hturns
      rw [hu] at hless
      exact h _ (by show reasoned turns < _; omega)
  · rfl

/-- **The rounds suffice**: with one for each turn that has reasoning, the loop goes on for as long
as it can shed. -/
theorem promptShedding_eq_sendOrShed {fuel} {s : Loop}
    (h : reasoned s.transcript.turns ≤ fuel) :
    promptShedding world fuel s = sendOrShed world (promptShedding world fuel) s := by
  induction fuel generalizing s with
  | zero => exact sendOrShed_congr world fun s' hs' ↦ absurd hs' (by omega)
  | succ fuel ih => exact sendOrShed_congr world fun s' hs' ↦ ih (by omega)

def stopFor : PlaneError → StopReason
  | .frameTooLarge => .frameBound
  | .refused => .promptRefused
  | .malformed => .promptMalformed
  | .replyUnusable d => .replyUnusable d
  | .unavailable => .egressUnavailable
  | .transport m => .transport m

/-- Ask the meter. What it says to the host is left out. -/
def meterGate : Run PUnit := do
  let s ← state
  let gated := s.meter.gate s.transcript.bytes
  change fun s ↦ { s with meter := gated.2 }
  refuseIf (gated.1 = .stop) .contextBudget

/-- The reply to the transcript. -/
def nextReply : Run PromptReply := do
  match ← promptShedding world (reasoned (← state).transcript.turns) with
  | .ok reply =>
    change fun s ↦ { s with meter := s.meter.record s.transcript.bytes reply.usage }
    return reply
  | .error e => fail (stopFor e)

def setSeen (f : Seen → Seen) : Run PUnit := change fun s ↦ { s with seen := f s.seen }

def runRead (path : String) (page : PageRequest) : Run ToolOutcome := do
  match ← askRead world path page with
  | .content p =>
    let prev := (← state).seen[path]?
    setSeen fun seen ↦ seen.insert path p.version
    return .readContent { p with changed := prev.any fun v ↦ !sameContent v p.version }
  | .refused => return .readRefused
  | .unavailable => return .readUnavailable

def runWrite (path : String) (content : List UInt8) : Run ToolOutcome := do
  let basis : ReadBasis := ((← state).seen[path]?).elim .unread .read
  match ← askWrite world path content basis with
  | .applied (some v) =>
    setSeen fun seen ↦ seen.insert path v
    return .writeApplied
  | .applied none =>
    setSeen fun seen ↦ seen.erase path
    return .writeApplied
  | .stale =>
    setSeen fun seen ↦ seen.erase path
    match basis with
    | .read _ => return .writeStale
    | .unread => return .writeUnread
  | .unknown => return .writeUnknown
  | .notSent => return .writeNotSent

def runRequest (call : ProposedToolCall) : Run ToolOutcome :=
  match route json.toArgsDecoder call home with
  | .error e => pure (.badCall (badCall e))
  | .ok (.read _ path page) => runRead world path page
  | .ok (.write _ path content) => runWrite world path content

/-- Run a call, or skip it once the host asked to stop. -/
def runOrSkip (call : ProposedToolCall) : Run ToolOutcome := do
  if ← loadStop world then pure .notRun else runRequest json world home call

/-- A call is answered whether it was run or not. -/
def runCall (stepsRemaining : ℕ) (call : ProposedToolCall) : Run PUnit := do
  let outcome ← runOrSkip json world home call
  edit fun t ↦ t.pushToolResult call.callId (render json outcome stepsRemaining)

/-- Take a reply into the transcript. -/
def takeReply (reply : PromptReply) : Run PUnit := do
  change fun s ↦ { s with stepsUsed := s.stepsUsed + 1 }
  edit fun t ↦ t.pushAssistant reply

/-- The loop, with the number of steps that remain. -/
def driveFrom : ℕ → Run String
  | 0 => do
    checkStop world
    fail .stepBudget
  | stepsRemaining + 1 => do
    checkStop world
    meterGate
    checkStop world
    let reply ← nextReply world
    takeReply reply
    match step reply stepsRemaining budget with
    | .answer a => return a
    | .stop why => fail why
    | .execute calls =>
      calls.forM (runCall json world home stepsRemaining)
      driveFrom stepsRemaining

def driveSession : Run String := do
  change fun s ↦ { s with stepsUsed := 0 }
  driveFrom json world budget home budget.maxSteps

end Loop

end Maknae.Agent
