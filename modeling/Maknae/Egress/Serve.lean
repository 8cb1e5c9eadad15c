import Maknae.Egress.Messages
import Maknae.Kernel.EgressSocket

/-!
# Serving one connection

The egress daemon answers one frame on a connection of its own. It may say that nothing left, and it
may only say so before it starts the provider call. A thread that panics is answered for by the code
that contains it, so what has begun is kept in a flag: it is set before the call and before every
reply.

The world decides what the peer sends, what the key opener and the provider answer, whether threads
and slots are to be had, and **at which point the code panics**. The texts on standard error are
left out, but not that writing them can panic.

`triple_connection` is what holds of every run. `failed_send_left_nothing` puts it together with the
kernel's side of the connection.
-/

namespace Maknae.Egress

open Config Except Io Job Kernel List Proto

/-! ### Fulfilling a frame -/

inductive CallError
  | transport (text : String)
  | status (code : ℕ)
  | reply (defect : ReplyDefect) (usage : Option Usage)

def callFailure : CallError → FulfilError
  | .status code => .unusable (.fromStatus code) none
  | .reply defect usage => .unusable defect usage
  | .transport text => .provider ("provider call failed: " ++ text)

structure Completion where
  reply : PromptReply
  notice : Bool

/-- What was begun: the flag of the thread, the provider call, and a reply. -/
inductive DaemonNote
  | committed
  | providerCall
  | replying (r : EgressFrameReply)
deriving DecidableEq, Repr

/-- The answers of the world on one connection. -/
structure ServeWorld extends Socket where
  panics : ℕ → Bool
  peerUid : Except Unit ℕ
  setReadTimeout : Except String Unit
  decodeRequest : List UInt8 → Except String EgressFrameRequest
  openKey : List UInt8 → OpenRequest → Except OpenFailure String
  chatCompletion : EgressFrameRequest → List ChatMessage → String → Except CallError Completion
  slotFree : ℕ → Bool
  spawned : ℕ → Bool
  cloned : ℕ → Bool

section Serve

variable (world : ServeWorld) (codec : ReplyCodec) (bounds : EgressBounds) (expectedUid fuel : ℕ)

/-- A point where the code may panic. -/
def mayPanic {ε : Type} : Job (Halt ε) (Conn DaemonNote) PUnit := do
  if ← ask world.panics then Job.stop .panicked else pure ⟨⟩

/-- A line that is written, where there is something to say. -/
def lineIf {ε : Type} (c : Bool) : Job (Halt ε) (Conn DaemonNote) PUnit :=
  if c then mayPanic world else pure ⟨⟩

/-- Open the key and make the call with these messages. -/
def sendMessages (a : Admitted) (messages : List ChatMessage) :
    Job (Halt FulfilError) (Conn DaemonNote) EgressFrameReply := do
  mayPanic world
  let key ← report ((world.openKey a.req.sealedKey.bytes a.openReq).mapError .open)
  mayPanic world
  record (.note .providerCall)
  mayPanic world
  let completion ← report ((world.chatCompletion a.req messages key).mapError callFailure)
  lineIf world completion.notice
  return .reply completion.reply

def fulfil (a : Admitted) : Job (Halt FulfilError) (Conn DaemonNote) EgressFrameReply := do
  mayPanic world
  let messages ← report (chatMessages a.req.turns)
  sendMessages world a (withPreamble messages)

/-! ### One connection -/

inductive ServeError
  | fulfil (summary : String)
  | unusable (defect : ReplyDefect) (usage : Option Usage)
  | openFailed (failure : OpenFailure)
  | wrongPeer
  | oversizeFrame (n : ℕ)
  | io (text : String)
  | refused (r : Refusal)

def serveError : FulfilError → ServeError
  | .open failure => .openFailed failure
  | .unusable defect usage => .unusable defect usage
  | .provider summary => .fulfil summary

def ServeError.isUnusable : ServeError → Bool
  | unusable _ _ => true
  | _ => false

def daemonSide : Side ServeError where
  expired := .io "the connection's I/O bound expired"
  failed := .io
  writeFailed := .io
  stopped := some (.io "the peer stopped accepting the reply")
  closed := .io "the peer closed the connection mid-frame"
  restoreFirst := false

def maxRequestFrameBytes : ℕ := egressRequestFrameMaxBytes

def readBody : Job (Halt ServeError) (Conn DaemonNote) (List UInt8) := do
  let len ← readExactBy world.toSocket daemonSide fuel 4
  let n := ofLengthBytes len
  Job.refuseIf (maxRequestFrameBytes < n) (.oversizeFrame n)
  readExactBy world.toSocket daemonSide fuel n

def credsMatchUid (uid expectedUid : ℕ) : Bool := uid = expectedUid

def authenticate : Job (Halt ServeError) (Conn DaemonNote) PUnit := do
  let uid ← report (world.peerUid.mapError fun _ ↦ .wrongPeer)
  Job.refuseIf (¬credsMatchUid uid expectedUid) .wrongPeer
  report (world.setReadTimeout.mapError .io)

def writeReply (r : EgressFrameReply) : Job (Halt ServeError) (Conn DaemonNote) PUnit := do
  record (.note .committed)
  record (.note (.replying r))
  mayPanic world
  let out ← report ((codec.encode r egressReplyFrameEncodeBytes).mapError .io)
  writeAllBy world.toSocket daemonSide fuel (lengthBytes out.length)
  writeAllBy world.toSocket daemonSide fuel out

def refuseBeforeSend (why : ServeError) : Job (Halt ServeError) (Conn DaemonNote) PUnit := do
  let written ← (writeReply world codec fuel .refusedBeforeSend).attempt
  lineIf world (written matches .error _)
  Job.fail why

/-- What the daemon runs on an admitted frame, with the line on an unusable reply. -/
def handler (a : Admitted) : Job (Halt ServeError) (Conn DaemonNote) EgressFrameReply := do
  let out ← ((fulfil world a).mapError serveError).attempt
  lineIf world (match out with | .error e => e.isUnusable | .ok _ => false)
  report out

/-- The answer to what came of an admitted frame. -/
def answer : Except ServeError EgressFrameReply → Job (Halt ServeError) (Conn DaemonNote) PUnit
  | .ok reply => writeReply world codec fuel reply
  | .error (.openFailed f) => refuseBeforeSend world codec fuel (.openFailed f)
  | .error (.unusable defect usage) => writeReply world codec fuel (.unusable defect usage)
  | .error e => Job.fail e

/-- The answer to what was decided on a frame. -/
def answerDecided : Except Refusal Admitted → Job (Halt ServeError) (Conn DaemonNote) PUnit
  | .error r => refuseBeforeSend world codec fuel (.refused r)
  | .ok a => do
    record (.note .committed)
    let out ← (handler world a).attempt
    answer world codec fuel out

def serveOne : Job (Halt ServeError) (Conn DaemonNote) PUnit := do
  authenticate world expectedUid
  let body ← readBody world fuel
  mayPanic world
  let req ← report ((world.decodeRequest body).mapError .io)
  mayPanic world
  answerDecided world codec fuel (decide req bounds)

def refuseAtCapacityCommitting : Job (Halt ServeError) (Conn DaemonNote) PUnit := do
  authenticate world expectedUid
  let _ ← readBody world fuel
  writeReply world codec fuel .atCapacity

/-! ### Threads -/

/-- The reply for a thread that panicked before it had begun anything. -/
def answerUnsent (unsent : EgressFrameReply) : Job (Halt ServeError) (Conn DaemonNote) PUnit := do
  let s ← Job.state
  if .committed ∈ notesOf s.log then pure ⟨⟩
  else if ← ask world.cloned then
    let _ ← (writeReply world codec fuel unsent).attempt
    pure ⟨⟩
  else pure ⟨⟩

def spawnContained (unsent : EgressFrameReply)
    (work : Job (Halt ServeError) (Conn DaemonNote) PUnit) :
    Job (Halt ServeError) (Conn DaemonNote) PUnit := do
  let worked ← work.catchUnwind
  if worked.down then
    answerUnsent world codec fuel unsent
    mayPanic world
  else pure ⟨⟩

/-- The work of a connection's thread: an error is a line. -/
def connWork : Job (Halt ServeError) (Conn DaemonNote) PUnit := do
  let served ← (serveOne world codec bounds expectedUid fuel).attempt
  lineIf world (served matches .error _)

/-- The work of a refusal's thread: there is a line either way. -/
def refuseWork : Job (Halt ServeError) (Conn DaemonNote) PUnit := do
  let _ ← (refuseAtCapacityCommitting world codec expectedUid fuel).attempt
  mayPanic world

def answerAtCapacity : Job (Halt ServeError) (Conn DaemonNote) PUnit := do
  if ← ask world.slotFree then
    if ← ask world.spawned then
      spawnContained world codec fuel .atCapacity (refuseWork world codec expectedUid fuel)
    else mayPanic world
  else mayPanic world

/-- What the accept loop does with one connection, and the threads it starts for it. -/
def connection : Job (Halt ServeError) (Conn DaemonNote) PUnit := do
  if ← ask world.slotFree then
    if ← ask world.spawned then
      spawnContained world codec fuel .refusedBeforeSend
        (connWork world codec bounds expectedUid fuel)
    else
      mayPanic world
      if ← ask world.cloned then answerAtCapacity world codec expectedUid fuel else pure ⟨⟩
  else answerAtCapacity world codec expectedUid fuel

end Serve

/-! ### What was begun -/

/-- The notes so far, with nothing written. -/
def Stood (notes : List DaemonNote) (s : Conn DaemonNote) : Prop :=
  ∃ received, At (fun _ ↦ True) notes [] received s

/-- What holds of a connection all along. -/
structure Answering (codec : ReplyCodec) (s : Conn DaemonNote) : Prop where
  refusal : ∀ r, .replying r ∈ notesOf s.log → r.IsRefusal → .providerCall ∉ notesOf s.log
  sent : sentOf s.log = [] ∨ ∃ r out, .replying r ∈ notesOf s.log ∧
    codec.encode r egressReplyFrameEncodeBytes = .ok out ∧
    sentOf s.log <+: lengthBytes out.length ++ out
  fresh : .committed ∈ notesOf s.log ∨ Stood [] s

section Truth

variable {world : ServeWorld} {codec : ReplyCodec} {bounds : EgressBounds} {expectedUid fuel : ℕ}
variable {notes : List DaemonNote} {s : Conn DaemonNote} {ε : Type}
variable {E : Halt ε → Conn DaemonNote → Prop}

/-- Nothing was answered yet. -/
def Unanswered (notes : List DaemonNote) : Prop :=
  (∀ r, .replying r ∉ notes) ∧ (.committed ∈ notes ∨ notes = [])

theorem Stood.answering (h : Stood notes s) (hnotes : Unanswered notes) : Answering codec s := by
  obtain ⟨received, hs⟩ := h
  refine ⟨fun r hr ↦ absurd (hs.notes_eq ▸ hr) (hnotes.1 r), .inl hs.sent_eq, ?_⟩
  rcases hnotes.2 with hcommitted | rfl
  · exact .inl (hs.notes_eq ▸ hcommitted)
  · exact .inr ⟨received, hs⟩

theorem Stood.calls (h : Stood notes s) (n : ℕ) : Stood notes { s with calls := n } := by
  obtain ⟨received, hs⟩ := h
  exact ⟨received, hs.inv, hs.notes_eq, hs.sent_eq, hs.received_eq⟩

theorem Answering.calls (h : Answering codec s) (n : ℕ) : Answering codec { s with calls := n } :=
  ⟨h.refusal, h.sent, h.fresh.imp id fun hs ↦ hs.calls n⟩

theorem triple_record_stood (n : DaemonNote) :
    Job.Triple (Stood notes) (record (.note n)) (fun _ ↦ Stood (notes ++ [n])) E :=
  triple_exists fun received ↦ (triple_record fun _ _ _ ↦ trivial).mono (fun _ hs ↦ hs)
    (fun _ s hs ↦ ⟨received, by simpa [Event.noted, Event.sent, Event.got] using hs⟩)
    fun _ _ hs ↦ hs

section Asking

variable {P : Conn DaemonNote → Prop}

/-- Asking keeps what does not depend on how many calls were made. -/
theorem triple_ask_of {α : Type} (hP : ∀ s, P s → ∀ n, P { s with calls := n }) (answer : ℕ → α) :
    Job.Triple P (ask answer) (fun _ ↦ P) E := fun s hs ↦ hP s hs _

theorem triple_mayPanic (hP : ∀ s, P s → ∀ n, P { s with calls := n })
    (hE : ∀ s, P s → E .panicked s) : Job.Triple P (mayPanic world) (fun _ ↦ P) E :=
  (triple_ask_of hP _).bind fun _ ↦ triple_ite (fun _ ↦ triple_stop hE) fun _ ↦
    triple_pure fun _ hs ↦ hs

theorem triple_lineIf (c : Bool) (hP : ∀ s, P s → ∀ n, P { s with calls := n })
    (hE : ∀ s, P s → E .panicked s) : Job.Triple P (lineIf world c) (fun _ ↦ P) E :=
  triple_ite (fun _ ↦ triple_mayPanic hP hE) fun _ ↦ triple_pure fun _ hs ↦ hs

end Asking

variable {r : EgressFrameReply} {key : ε → Prop} {α : Type} {e : ServeError}

/-- A reply that was begun, and a part of its bytes. -/
theorem answering_of_replying {sent received}
    (hs : At (fun _ ↦ True) (notes ++ [.committed] ++ [.replying r]) sent received s)
    (hnotes : ∀ r', .replying r' ∉ notes) (hr : r.IsRefusal → .providerCall ∉ notes)
    (hsent : sent = [] ∨ ∃ out, codec.encode r egressReplyFrameEncodeBytes = .ok out ∧
    sent <+: lengthBytes out.length ++ out) : Answering codec s := by
  refine ⟨fun r' hr' hrefusal ↦ ?_, ?_, .inl (by simp [hs.notes_eq])⟩
  · have heq : r' = r := by simpa [hs.notes_eq, hnotes] using hr'
    simpa [hs.notes_eq] using hr (heq ▸ hrefusal)
  · rw [hs.sent_eq]
    refine hsent.imp id fun ⟨out, hout, hpart⟩ ↦ ⟨r, out, ?_, hout, hpart⟩
    simp [hs.notes_eq]

/-- **A reply is begun after the flag is set**, and what is written is the start of that reply. -/
theorem triple_writeReply (hnotes : ∀ r', .replying r' ∉ notes)
    (hr : r.IsRefusal → .providerCall ∉ notes) :
    Job.Triple (Stood notes) (writeReply world codec fuel r) (fun _ ↦ Answering codec)
      fun _ ↦ Answering codec := by
  have hkept : KeptByIo fun _ : List (Event DaemonNote) ↦ True := fun _ _ _ _ ↦ trivial
  have hside : daemonSide.All fun _ ↦ True := ⟨trivial, fun _ ↦ trivial, fun _ ↦ trivial,
    fun _ _ ↦ trivial, trivial⟩
  have hsilent : ∀ s, Stood (notes ++ [.committed] ++ [.replying r]) s → Answering codec s :=
    fun s ⟨_, hs⟩ ↦ answering_of_replying hs hnotes hr (.inl rfl)
  refine (triple_record_stood _).bind fun _ ↦ (triple_record_stood _).bind fun _ ↦ ?_
  refine (triple_mayPanic (fun _ hs ↦ hs.calls) hsilent).bind fun _ ↦ triple_exists
    fun received ↦ ?_
  have hencode : Job.Triple (At (fun _ ↦ True) (notes ++ [.committed] ++ [.replying r]) [] received)
      (report ((codec.encode r egressReplyFrameEncodeBytes).mapError .io))
      (fun out s ↦ codec.encode r egressReplyFrameEncodeBytes = .ok out ∧
        At (fun _ ↦ True) (notes ++ [.committed] ++ [.replying r]) [] received s)
      fun _ : Halt ServeError ↦ Answering codec :=
    (triple_report fun _ _ ↦ trivial).mono (fun _ hs ↦ hs)
      (fun _ _ hs ↦ ⟨mapError_eq_ok_iff.mp hs.1, hs.2⟩) fun _ s hs ↦
        hsilent s ⟨received, hs.2.2⟩
  refine hencode.bind fun out ↦ Job.Triple.of_fact (fun _ hs ↦ hs.1) fun hout ↦
    Job.Triple.of_imp ?_ fun _ hs ↦ hs.2
  refine ((triple_writeAllBy hkept hside fuel _).mono (fun _ hs ↦ hs) (fun _ _ hs ↦ hs)
    fun _ s hs ↦ ?_).bind fun _ ↦ (triple_writeAllBy hkept hside fuel _).mono (fun _ hs ↦ hs)
    (fun _ s hs ↦ ?_) fun _ s hs ↦ ?_
  · obtain ⟨part, hpart, hs⟩ := hs.2.2
    exact answering_of_replying hs hnotes hr (.inr ⟨out, hout, hpart.trans (prefix_append _ _)⟩)
  · exact answering_of_replying hs hnotes hr (.inr ⟨out, hout, prefix_refl _⟩)
  · obtain ⟨part, hpart, hs⟩ := hs.2.2
    exact answering_of_replying hs hnotes hr
      (.inr ⟨out, hout, (prefix_append_right_inj _).mpr hpart⟩)

theorem triple_refuseBeforeSend {why} (hnotes : ∀ r', .replying r' ∉ notes)
    (hcall : .providerCall ∉ notes) :
    Job.Triple (Stood notes) (refuseBeforeSend world codec fuel why) (fun _ ↦ Answering codec)
      fun _ ↦ Answering codec :=
  ((triple_writeReply hnotes fun _ ↦ hcall).attempt (R := fun _ ↦ Answering codec)
    (fun _ _ hs ↦ hs) fun _ _ hs ↦ hs).bind fun _ ↦
    (triple_lineIf (P := Answering codec) _ (fun _ hs ↦ hs.calls) fun _ hs ↦ hs).bind fun _ ↦
    triple_fail fun _ hs ↦ hs

/-! ### The provider call -/

theorem unanswered_nil : Unanswered [] := ⟨fun _ h ↦ (nomatch h), .inr rfl⟩

theorem unanswered_committed : Unanswered [.committed] := ⟨by simp, .inl (by simp)⟩

theorem unanswered_called : Unanswered [.committed, .providerCall] := ⟨by simp, .inl (by simp)⟩

/-- Nothing was answered, whatever was begun. -/
def Waiting (s : Conn DaemonNote) : Prop := ∃ notes, Unanswered notes ∧ Stood notes s

theorem Waiting.answering (h : Waiting s) : Answering codec s := by
  obtain ⟨notes, hnotes, hs⟩ := h
  exact hs.answering hnotes

/-- Where the code for an admitted frame halts: nothing was answered, and **a key that did not open
is reported from before the provider call**. -/
def HaltsBefore (key : ε → Prop) (h : Halt ε) (s : Conn DaemonNote) : Prop :=
  Waiting s ∧ ∀ e, h = .error e → key e → Stood [.committed] s

def FulfilError.IsOpen (e : FulfilError) : Prop := ∃ f, e = .open f

def ServeError.IsOpen (e : ServeError) : Prop := ∃ f, e = .openFailed f

theorem isOpen_of_serveError {e} (h : (serveError e).IsOpen) : e.IsOpen := by
  obtain ⟨f, hf⟩ := h
  cases e with
  | «open» g => exact ⟨g, rfl⟩
  | provider _ | unusable _ _ => exact nomatch hf

theorem not_isOpen_callFailure (e : CallError) : ¬(callFailure e).IsOpen := by
  rintro ⟨f, hf⟩
  cases e <;> exact nomatch hf

theorem triple_report_waiting (hnotes : Unanswered notes) (x : Except ε α)
    (hx : ∀ e, x = .error e → key e → notes = [.committed]) :
    Job.Triple (Stood notes) (report x) (fun _ ↦ Stood notes) (HaltsBefore key) := by
  rcases x with e | a
  · refine triple_fail fun s hs ↦ ⟨⟨notes, hnotes, hs⟩, fun e' he hkey ↦ ?_⟩
    obtain rfl := Halt.error.inj he
    exact hx _ rfl hkey ▸ hs
  · exact triple_pure fun s hs ↦ hs

theorem triple_mayPanic_waiting (hnotes : Unanswered notes) :
    Job.Triple (Stood notes) (mayPanic world) (fun _ ↦ Stood notes) (HaltsBefore key) :=
  triple_mayPanic (fun _ hs ↦ hs.calls) fun _ hs ↦ ⟨⟨notes, hnotes, hs⟩, nofun⟩

theorem triple_fulfil (a : Admitted) :
    Job.Triple (Stood [.committed]) (fulfil world a)
      (fun reply s ↦ (∃ p, reply = .reply p) ∧ Waiting s) (HaltsBefore FulfilError.IsOpen) := by
  refine (triple_mayPanic_waiting unanswered_committed).bind fun _ ↦ ?_
  refine (triple_report_waiting unanswered_committed _ fun _ _ _ ↦ rfl).bind fun messages ↦ ?_
  refine (triple_mayPanic_waiting unanswered_committed).bind fun _ ↦ ?_
  refine (triple_report_waiting unanswered_committed _ fun _ _ _ ↦ rfl).bind fun key ↦ ?_
  refine (triple_mayPanic_waiting unanswered_committed).bind fun _ ↦ ?_
  -- From here the call was started, and none of its errors is of the key.
  refine (triple_record_stood _).bind fun _ ↦ (triple_mayPanic_waiting unanswered_called).bind
    fun _ ↦ ?_
  have hcall : ∀ e, (world.chatCompletion a.req (withPreamble messages) key).mapError callFailure =
      .error e → e.IsOpen → [DaemonNote.committed, .providerCall] = [.committed] := by
    intro e he hopen
    rcases hchat : world.chatCompletion a.req (withPreamble messages) key with failure | completion
    · rw [hchat] at he
      exact absurd (error.inj he ▸ hopen) (not_isOpen_callFailure failure)
    · rw [hchat] at he
      exact nomatch he
  refine (triple_report_waiting unanswered_called _ hcall).bind fun completion ↦ ?_
  refine (triple_ite (fun _ ↦ triple_mayPanic_waiting unanswered_called) fun _ ↦
    triple_pure fun _ hs ↦ hs).bind fun _ ↦
    triple_pure fun s hs ↦ ⟨⟨_, rfl⟩, _, unanswered_called, hs⟩

/-- What the code for an admitted frame came to, and where that leaves the connection. -/
structure Came (out : Except ServeError EgressFrameReply) (s : Conn DaemonNote) : Prop where
  waiting : Waiting s
  reply : ∀ r, out = .ok r → ¬r.IsRefusal
  key : ∀ e, out = .error e → e.IsOpen → Stood [.committed] s

theorem Came.calls {out : Except ServeError EgressFrameReply} (h : Came out s) (n : ℕ) :
    Came out { s with calls := n } := by
  obtain ⟨notes, hnotes, hs⟩ := h.waiting
  exact ⟨⟨notes, hnotes, hs.calls n⟩, h.reply, fun e he hopen ↦ (h.key e he hopen).calls n⟩

theorem came_of_haltsBefore (h : HaltsBefore ServeError.IsOpen (.error e) s) :
    Came (.error e) s :=
  ⟨h.1, nofun, fun _ he ↦ h.2 _ (congrArg Halt.error (error.inj he))⟩

theorem came_of_reply (hr : ¬r.IsRefusal) (h : Waiting s) : Came (.ok r) s :=
  ⟨h, fun _ he ↦ ok.inj he ▸ hr, nofun⟩

theorem triple_handler (a : Admitted) :
    Job.Triple (Stood [.committed]) (handler world a) (fun reply s ↦ ¬reply.IsRefusal ∧ Waiting s)
      (HaltsBefore ServeError.IsOpen) := by
  have hmapped : Job.Triple (Stood [.committed]) ((fulfil world a).mapError serveError)
      (fun reply s ↦ (∃ p, reply = .reply p) ∧ Waiting s) (HaltsBefore ServeError.IsOpen) := by
    refine (triple_fulfil a).mapError (fun e s hs ↦ ⟨hs.1, fun e' he hopen ↦ ?_⟩)
      (fun s hs ↦ ⟨hs.1, nofun⟩) fun s hs ↦ ⟨hs.1, nofun⟩
    exact hs.2 e rfl (isOpen_of_serveError (Halt.error.inj he ▸ hopen))
  refine (hmapped.attempt (fun r s hs ↦ ?_) fun e s hs ↦ came_of_haltsBefore hs).bind
    fun out ↦ (triple_lineIf _ (fun _ hs ↦ hs.calls) fun s hs ↦ ⟨hs.waiting, nofun⟩).bind
    fun _ ↦ ?_
  · obtain ⟨⟨p, rfl⟩, hs⟩ := hs
    exact came_of_reply (by simp [EgressFrameReply.IsRefusal]) hs
  · rcases out with e | r
    · exact triple_fail fun s hs ↦
        ⟨hs.waiting, fun e' he hopen ↦ hs.key e' (congrArg error (Halt.error.inj he)) hopen⟩
    · exact triple_pure fun s hs ↦ ⟨hs.reply r rfl, hs.waiting⟩

/-- A reply that is no refusal may follow whatever was begun. -/
theorem triple_writeReply_waiting (hr : ¬r.IsRefusal) :
    Job.Triple Waiting (writeReply world codec fuel r) (fun _ ↦ Answering codec)
      fun _ ↦ Answering codec :=
  triple_exists fun _ ↦ Job.Triple.of_fact (fun _ hs ↦ hs.1) fun hnotes ↦
    (triple_writeReply hnotes.1 fun h ↦ absurd h hr).of_imp fun _ hs ↦ hs.2

theorem triple_answer (out : Except ServeError EgressFrameReply) :
    Job.Triple (Came out) (answer world codec fuel out) (fun _ ↦ Answering codec)
      fun _ ↦ Answering codec := by
  rcases out with e | r
  · cases e with
    | openFailed f =>
      exact (triple_refuseBeforeSend unanswered_committed.1 (by simp)).of_imp fun s hs ↦
        hs.key _ rfl ⟨f, rfl⟩
    | unusable defect usage =>
      exact (triple_writeReply_waiting (by simp [EgressFrameReply.IsRefusal])).of_imp fun s hs ↦
        hs.waiting
    | fulfil _ | wrongPeer | oversizeFrame _ | io _ | refused _ =>
      exact triple_fail fun s hs ↦ hs.waiting.answering
  · exact Job.Triple.of_fact (fun _ hs ↦ hs.reply r rfl) fun hr ↦
      (triple_writeReply_waiting hr).of_imp fun s hs ↦ hs.waiting

theorem triple_answerDecided (decided : Except Refusal Admitted) :
    Job.Triple (Stood []) (answerDecided world codec fuel decided) (fun _ ↦ Answering codec)
      fun _ ↦ Answering codec := by
  rcases decided with r | a
  · exact triple_refuseBeforeSend unanswered_nil.1 not_mem_nil
  · refine (triple_record_stood _).bind fun _ ↦ Job.Triple.bind ?_ fun out ↦
      triple_answer out
    exact ((triple_handler a).attempt (fun r s hs ↦ came_of_reply hs.1 hs.2)
      fun e s hs ↦ came_of_haltsBefore hs).mono (fun _ hs ↦ hs) (fun _ _ hs ↦ hs)
      fun _ _ hs ↦ hs.1.answering

/-! ### Before anything was begun -/

theorem Stood.answering_nil (h : Stood [] s) : Answering codec s := h.answering unanswered_nil

theorem triple_report_nil (x : Except ServeError α) :
    Job.Triple (Stood []) (report x) (fun _ ↦ Stood []) fun _ ↦ Answering codec := by
  rcases x with e | a
  · exact triple_fail fun s hs ↦ hs.answering_nil
  · exact triple_pure fun s hs ↦ hs

theorem triple_refuseIf_nil {c : Prop} [Decidable c] :
    Job.Triple (Stood []) (Job.refuseIf c e) (fun _ ↦ Stood []) fun _ ↦ Answering codec :=
  (triple_refuseIf fun _ _ hs ↦ hs.answering_nil).mono (fun _ hs ↦ hs) (fun _ _ hs ↦ hs.2)
    fun _ _ hs ↦ hs

theorem triple_readExactBy_nil (n : ℕ) :
    Job.Triple (Stood []) (readExactBy world.toSocket daemonSide fuel n) (fun _ ↦ Stood [])
      fun _ ↦ Answering codec := by
  refine triple_exists fun received ↦ (triple_readExactBy
    (fun _ _ _ _ ↦ trivial) ⟨trivial, fun _ ↦ trivial, fun _ ↦ trivial, fun _ _ ↦ trivial, trivial⟩
    fuel n).mono (fun _ hs ↦ hs) (fun _ s hs ↦ ⟨_, hs.2⟩) fun _ s hs ↦ ?_
  obtain ⟨part, hs⟩ := hs.2.2
  exact Stood.answering_nil ⟨_, hs⟩

theorem triple_readBody : Job.Triple (Stood []) (readBody world fuel) (fun _ ↦ Stood [])
    fun _ ↦ Answering codec :=
  (triple_readExactBy_nil 4).bind fun _ ↦ triple_refuseIf_nil.bind fun _ ↦
    triple_readExactBy_nil _

theorem triple_authenticate : Job.Triple (Stood []) (authenticate world expectedUid)
    (fun _ ↦ Stood []) fun _ ↦ Answering codec :=
  (triple_report_nil _).bind fun _ ↦ triple_refuseIf_nil.bind fun _ ↦ triple_report_nil _

theorem triple_serveOne :
    Job.Triple (Stood []) (serveOne world codec bounds expectedUid fuel) (fun _ ↦ Answering codec)
      fun _ ↦ Answering codec := by
  have hpanic : Job.Triple (Stood []) (mayPanic world) (fun _ ↦ Stood [])
      fun _ : Halt ServeError ↦ Answering codec :=
    triple_mayPanic (fun _ hs ↦ hs.calls) fun _ hs ↦ hs.answering_nil
  exact triple_authenticate.bind fun _ ↦ triple_readBody.bind fun _ ↦ hpanic.bind fun _ ↦
    (triple_report_nil _).bind fun _ ↦ hpanic.bind fun _ ↦ triple_answerDecided _

theorem triple_refuseAtCapacityCommitting :
    Job.Triple (Stood []) (refuseAtCapacityCommitting world codec expectedUid fuel)
      (fun _ ↦ Answering codec) fun _ ↦ Answering codec :=
  triple_authenticate.bind fun _ ↦ triple_readBody.bind fun _ ↦
    triple_writeReply unanswered_nil.1 fun _ ↦ not_mem_nil

/-! ### Containing a panic -/

theorem triple_answerUnsent (unsent : EgressFrameReply) :
    Job.Triple (Answering codec) (answerUnsent world codec fuel unsent) (fun _ ↦ Answering codec)
      fun _ ↦ Answering codec := by
  refine triple_state.bind fun s ↦ triple_ite (fun _ ↦ triple_pure fun _ hs ↦ hs.2)
    fun hfresh ↦ ?_
  -- The flag is not set, so nothing was begun and nothing was written.
  refine Job.Triple.of_imp (P := Stood []) ?_ fun t ht ↦ ?_
  · refine (triple_ask_of (fun _ hs ↦ hs.calls) _).bind fun _ ↦ triple_ite (fun _ ↦ ?_)
      fun _ ↦ triple_pure fun _ hs ↦ hs.answering_nil
    exact ((triple_writeReply unanswered_nil.1 fun _ ↦ not_mem_nil).attempt
      (fun _ _ hs ↦ hs) fun _ _ hs ↦ hs).bind fun _ ↦
      triple_pure fun _ hs ↦ hs
  · exact ht.2.fresh.resolve_left (ht.1 ▸ hfresh)

theorem triple_mayPanic_answering :
    Job.Triple (Answering codec) (mayPanic world) (fun _ ↦ Answering codec)
      fun _ : Halt ServeError ↦ Answering codec :=
  triple_mayPanic (fun _ hs ↦ hs.calls) fun _ hs ↦ hs

theorem triple_spawnContained (unsent : EgressFrameReply)
    {work : Job (Halt ServeError) (Conn DaemonNote) PUnit}
    (hwork : Job.Triple (Stood []) work (fun _ ↦ Answering codec) fun _ ↦ Answering codec) :
    Job.Triple (Stood []) (spawnContained world codec fuel unsent work) (fun _ ↦ Answering codec)
      fun _ ↦ Answering codec :=
  (hwork.catchUnwind (R := fun _ ↦ Answering codec) (fun _ _ hs ↦ hs) (fun _ _ hs ↦ hs)
    fun _ hs ↦ hs).bind fun _ ↦ triple_ite
    (fun _ ↦ (triple_answerUnsent unsent).bind fun _ ↦ triple_mayPanic_answering)
    fun _ ↦ triple_pure fun _ hs ↦ hs

theorem triple_connWork : Job.Triple (Stood []) (connWork world codec bounds expectedUid fuel)
    (fun _ ↦ Answering codec) fun _ ↦ Answering codec :=
  (triple_serveOne.attempt (R := fun _ ↦ Answering codec) (fun _ _ hs ↦ hs) fun _ _ hs ↦ hs).bind
    fun _ ↦ triple_lineIf _ (fun _ hs ↦ hs.calls) fun _ hs ↦ hs

theorem triple_refuseWork : Job.Triple (Stood []) (refuseWork world codec expectedUid fuel)
    (fun _ ↦ Answering codec) fun _ ↦ Answering codec :=
  (triple_refuseAtCapacityCommitting.attempt (R := fun _ ↦ Answering codec) (fun _ _ hs ↦ hs)
    fun _ _ hs ↦ hs).bind fun _ ↦ triple_mayPanic_answering

theorem triple_answerAtCapacity :
    Job.Triple (Stood []) (answerAtCapacity world codec expectedUid fuel) (fun _ ↦ Answering codec)
      fun _ ↦ Answering codec := by
  have hpanic : Job.Triple (Stood []) (mayPanic world) (fun _ ↦ Answering codec)
      fun _ : Halt ServeError ↦ Answering codec :=
    triple_mayPanic_answering.of_imp fun _ hs ↦ hs.answering_nil
  refine (triple_ask_of (fun _ hs ↦ hs.calls) _).bind fun _ ↦ triple_ite (fun _ ↦ ?_)
    fun _ ↦ hpanic
  exact (triple_ask_of (fun _ hs ↦ hs.calls) _).bind fun _ ↦ triple_ite
    (fun _ ↦ triple_spawnContained _ triple_refuseWork) fun _ ↦ hpanic

/-- **Whatever the world does, and wherever the code panics**, a refusal is answered only on a
connection with no provider call, and what is written is the start of the reply that was begun. -/
theorem triple_connection :
    Job.Triple (Stood []) (connection world codec bounds expectedUid fuel) (fun _ ↦ Answering codec)
      fun _ ↦ Answering codec := by
  refine (triple_ask_of (fun _ hs ↦ hs.calls) _).bind fun _ ↦ triple_ite (fun _ ↦ ?_)
    fun _ ↦ triple_answerAtCapacity
  refine (triple_ask_of (fun _ hs ↦ hs.calls) _).bind fun _ ↦ triple_ite
    (fun _ ↦ triple_spawnContained _ triple_connWork) fun _ ↦ ?_
  refine (triple_mayPanic (fun _ hs ↦ hs.calls) fun _ hs ↦ hs.answering_nil).bind fun _ ↦ ?_
  exact (triple_ask_of (fun _ hs ↦ hs.calls) _).bind fun _ ↦ triple_ite
    (fun _ ↦ triple_answerAtCapacity) fun _ ↦ triple_pure fun _ hs ↦ hs.answering_nil

end Truth

/-! ### Both sides of a connection -/

theorem length_lengthBytes (n : ℕ) : (lengthBytes n).length = 4 := by simp [lengthBytes]

theorem ofLengthBytes_lengthBytes {n} (h : n < 2 ^ 32) : ofLengthBytes (lengthBytes n) = n := by
  rw [ofLengthBytes, lengthBytes, reverse_reverse, Nat.mod_eq_of_lt h]
  exact ofLeBytes_leBytes (by omega)

/-- **A reply received in full is the one that was sent**, though only its start may have been. -/
theorem eq_of_receivedReply {codec r r' received out} (hr : ReceivedReply codec received r)
    (hout : codec.encode r' egressReplyFrameEncodeBytes = .ok out)
    (hpart : received <+: lengthBytes out.length ++ out) : r = r' := by
  obtain ⟨len, body, rfl, hlen, hbody, hdecode⟩ := hr
  obtain ⟨rest, hrest⟩ := hpart
  rw [append_assoc] at hrest
  obtain ⟨rfl, hwhole⟩ := append_inj hrest (by rw [hlen, length_lengthBytes])
  -- The length that was sent is the one of the whole reply.
  have hsmall : out.length < 2 ^ 32 :=
    (codec.length_encode_le hout).trans_lt (by decide)
  rw [ofLengthBytes_lengthBytes hsmall] at hbody
  have hlength := congrArg length hwhole
  rw [length_append] at hlength
  have hnil : rest = [] := length_eq_zero_iff.mp (by omega)
  rw [hnil, append_nil] at hwhole
  exact codec.eq_of_decode_encode hout (hwhole ▸ hdecode)

/-- A new connection. -/
def fresh {ν : Type} : Conn ν := ⟨0, []⟩

/-- **A send is recorded as failed only when nothing left.** The world is free on both sides. Where
the send is recorded so, no byte was written or the peer's refusal was received in full. If the
daemon is that peer, what was received being some of what it sent, it answered a refusal and never
started the provider call. It never does on a connection that it answers so. And the kernel wrote
only after its checks, and made no buffer over its cap. -/
theorem failed_send_left_nothing (cfg : SocketEgress) (world : SendWorld) (codec : ReplyCodec)
    (fuel : ℕ) (req : EgressRequest) (peer : ServeWorld) (bounds : EgressBounds)
    (expectedUid peerFuel : ℕ) :
    let kernel := send cfg world codec fuel req fresh
    let daemon := (connection peer codec bounds expectedUid peerFuel fresh).2
    (∀ e, kernel.1 = .error (.error e) → outcomeForFailure e = .failed →
      sentOf kernel.2.log = [] ∨
        (∃ r, r.IsRefusal ∧ ReceivedReply codec (receivedOf kernel.2.log) r ∧
          (receivedOf kernel.2.log <+: sentOf daemon.log →
            .replying r ∈ notesOf daemon.log ∧ .providerCall ∉ notesOf daemon.log))) ∧
    (∀ r, r.IsRefusal → .replying r ∈ notesOf daemon.log →
      .providerCall ∉ notesOf daemon.log) ∧
    Guarded cfg world req kernel.2.log := by
  intro kernel daemon
  have hsend := @triple_send cfg world codec fuel req
  have hstart : At (Guarded cfg world req) [] [] [] fresh := ⟨guarded_nil, rfl, rfl, rfl⟩
  have hdaemon : Answering codec daemon := triple_connection.final ⟨[], trivial, rfl, rfl, rfl⟩
  refine ⟨fun e he hfailed ↦ ?_, fun r hr hreply ↦ hdaemon.refusal r hreply hr, ?_⟩
  · have hrun : send cfg world codec fuel req fresh = (.error (.error e), kernel.2) :=
      Prod.ext he rfl
    refine ((hsend.of_error hstart hrun).2 e rfl hfailed).imp id fun ⟨r, hr, hreceived⟩ ↦
      ⟨r, hr, hreceived, fun hpart ↦ ?_⟩
    -- A reply came in, so the daemon wrote one: it is the one that came in.
    rcases hdaemon.sent with hnone | ⟨r', out, hreply, hout, hsent⟩
    · obtain ⟨len, body, heq, hlen, -⟩ := hreceived
      rw [hnone, heq, prefix_nil, append_eq_nil_iff] at hpart
      exact absurd hlen (by simp [hpart.1])
    · obtain rfl := eq_of_receivedReply hreceived hout (hpart.trans hsent)
      exact ⟨hreply, hdaemon.refusal _ hreply hr⟩
  · exact Job.Triple.final
      (hsend.mono (fun _ hs ↦ hs) (fun _ _ hs ↦ hs) fun _ _ hs ↦ hs.1) hstart

/-! ### A panic that is answered -/

/-- The CBOR of the two refusals: texts of less than 24 bytes. -/
def refusedCbor : List UInt8 := 0x73 :: utf8Bytes "refused_before_send"

def capacityCbor : List UInt8 := 0x6b :: utf8Bytes "at_capacity"

/-- Bytes that go into a buffer. -/
def fitting (bytes : List UInt8) (n : ℕ) : Except String (List UInt8) :=
  if bytes.length ≤ n then .ok bytes else .error "no room"

theorem fitting_eq_ok {bytes out : List UInt8} {n} (h : fitting bytes n = .ok out) :
    bytes = out ∧ out.length ≤ n := by
  rw [fitting] at h
  split_ifs at h with hn
  cases h
  exact ⟨rfl, hn⟩

/-- A codec of the two refusals alone. -/
def refusalCodec : ReplyCodec where
  encode
    | .refusedBeforeSend, n => fitting refusedCbor n
    | .atCapacity, n => fitting capacityCbor n
    | _, _ => .error "no refusal"
  decode bytes :=
    if bytes = refusedCbor then .ok .refusedBeforeSend
    else if bytes = capacityCbor then .ok .atCapacity else .error "no refusal"
  eq_of_decode_encode {r r' n out} hout hdecode := by
    cases r with
    | refusedBeforeSend | atCapacity =>
      obtain ⟨rfl, -⟩ := fitting_eq_ok hout
      exact (ok.inj hdecode).symm
    | reply _ | unusable _ _ => exact nomatch hout
  length_encode_le {r n out} hout := by
    cases r with
    | refusedBeforeSend | atCapacity => exact (fitting_eq_ok hout).2
    | reply _ | unusable _ _ => exact nomatch hout

/-- A socket that takes and gives everything at once. -/
def readySocket (read : ℕ → List UInt8) : Socket where
  spent _ := false
  poll _ := .ready
  write _ := .ok 16
  read n := .ok (read n)
  setNonblocking _ := .ok ()

def aliceWorld : SendWorld where
  toSocket := readySocket fun n ↦ if n = 13 then [0, 0, 0, 20] else refusedCbor
  connect := .ok ()
  listenerUid := .ok 0
  encodedLen _ := .ok 3
  encode _ _ := .ok [7, 8, 9]
  setReadTimeout := .ok ()
  setWriteTimeout := .ok ()
  flush := .ok ()

/-- The decoder panics on the frame. -/
def panickingPeer : ServeWorld where
  toSocket := readySocket fun n ↦ if n = 4 then [0, 0, 0, 3] else [7, 8, 9]
  panics n := n = 8
  peerUid := .ok 400
  setReadTimeout := .ok ()
  decodeRequest _ := .error ""
  openKey _ _ := .error .request
  chatCompletion _ _ _ := .error (.transport "")
  slotFree _ := true
  spawned _ := true
  cloned _ := true

def aliceRequest : EgressRequest :=
  .forChoice (aliceChoice blankKey) "provider:openai" "conv1" [.user [.text "hello"]] none

theorem failed_send_left_nothing_panicking :
    let kernel := send ⟨400, ⟨280, 0⟩, 1048576⟩ aliceWorld refusalCodec 9 aliceRequest fresh
    let daemon := (connection panickingPeer refusalCodec aliceEgressBounds 400 9 fresh).2
    sentOf kernel.2.log = [0, 0, 0, 3, 7, 8, 9] ∧
      receivedOf kernel.2.log <+: sentOf daemon.log ∧ .providerCall ∉ notesOf daemon.log := by
  intro kernel daemon
  have hsent : sentOf kernel.2.log = [0, 0, 0, 3, 7, 8, 9] := by decide +kernel
  have hpart : receivedOf kernel.2.log <+: sentOf daemon.log := by decide +kernel
  obtain ⟨hfailed, -, -⟩ := failed_send_left_nothing ⟨400, ⟨280, 0⟩, 1048576⟩ aliceWorld
    refusalCodec 9 aliceRequest panickingPeer aliceEgressBounds 400 9
  rcases hfailed .refusedBeforeSend (by decide +kernel) rfl with hnone | ⟨r, -, -, hdaemon⟩
  · exact absurd (hsent.symm.trans hnone) (by decide)
  · exact ⟨hsent, hpart, (hdaemon hpart).2⟩

/-! ### What is sent of an admitted frame -/

/-- **The daemon sends what the kernel measured.** The provider gets the preamble and one message
for each turn, whose bytes are those the hash was fed, but for the refused calls: their arguments
are empty, and go out as an empty object. -/
theorem fulfil_sends_measured {σ : Type} (hasher : Hasher σ) (world : ServeWorld)
    {req : EgressFrameRequest} {bounds : EgressBounds} {a : Admitted}
    (h : decide req bounds = .ok a) :
    ∃ messages,
      (fulfil world a = do
        mayPanic world
        sendMessages world a (withPreamble messages)) ∧
      List.Forall₂ Answers req.turns messages ∧
      messages.flatMap messageBytes = req.turns.flatMap (turnBytes sentArguments) ∧
      (∃ pieces : List (List UInt8),
        pieces.flatten = req.turns.flatMap (turnBytes ProposedToolCall.arguments) ∧
        contentMeasure hasher req.turns = ⟨pieces.flatten.length,
          digest32 (hasher.finish (pieces.foldl hasher.update hasher.init))⟩) ∧
      ∀ t ∈ req.turns, ∀ c ∈ t.toolCalls, c.refused.isSome → c.arguments = "" := by
  obtain ⟨hreq, hturns, htext⟩ := of_decide_eq_ok h
  obtain ⟨messages, hmessages, hanswers⟩ := exists_chatMessages htext
  refine ⟨messages, ?_, hanswers, flatMap_messageBytes hanswers, contentMeasure_eq hasher req.turns,
    fun t ht c ↦ arguments_of_refused (hturns t ht)⟩
  rw [fulfil, hreq, hmessages]
  rfl

/-- A transcript with two blocks in a turn, a refused call and a reasoning. -/
def refusedCallFrame : EgressFrameRequest :=
  { promptFrame (aliceChoice blankKey) (alicePrompt blankKey) ⟨280, 0⟩ with
    turns := [.user [.text "  ", .text "real"],
      .assistant [] [⟨"write_file", "c1", "", some (.argumentsOverBound 61441)⟩,
        ⟨"read_file", "c2", "[1]", none⟩] (some "why"),
      .tool "c1" [.text "no"], .tool "c2" [.text "yes"]] }

theorem fulfil_sends_measured_refusedCall :
    ∃ messages : List ChatMessage, messages.length = 4 ∧
      messages.flatMap messageBytes = utf8Bytes "  real\x7b\x7d[1]whynoyes" ∧
      (contentMeasure ⟨[], (· ++ ·), id⟩ refusedCallFrame.turns).length = 17 := by
  obtain ⟨a, ha⟩ : ∃ a, decide refusedCallFrame aliceEgressBounds = .ok a :=
    exists_eq_ok_of_isOk (by decide +kernel)
  obtain ⟨messages, -, hanswers, hbytes, -⟩ :=
    fulfil_sends_measured ⟨[], (· ++ ·), id⟩ panickingPeer ha
  refine ⟨messages, hanswers.length_eq.symm, hbytes.trans (by decide +kernel), ?_⟩
  show (refusedCallFrame.turns.flatMap (turnBytes ProposedToolCall.arguments)).length = 17
  decide +kernel

end Maknae.Egress
