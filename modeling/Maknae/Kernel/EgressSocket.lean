import Maknae.Io.Budget
import Maknae.Kernel.EgressRequest

/-!
# Sending a request to the egress daemon

One request goes over one connection. The kernel checks who listens and how long the frame is, and
only then writes. From the first write on, no failure of its own claims that nothing left, and a
budget that is spent never does. Only the peer's refusal still can. `triple_send` is that this is so
however the peer and the socket behave.

What the world answers is free. The encoder of the request and the codec of the reply are libraries,
and the counting pass and the encoder may fail or answer anything. The operator's line on a frame
over the cap is left out.
-/

namespace Maknae.Kernel

open Io Job List Proto

inductive EgressFailure
  | notConfigured
  | transport (text : String)
  | deadlineExpired
  | afterSend (text : String)
  | refusedBeforeSend
  | deputyAtCapacity
  | kernelAtCapacity
  | circuitOpen
  | deputyUnreachable (text : String)
  | replyUnusable (defect : ReplyDefect) (usage : Option Usage)
deriving DecidableEq, Repr

inductive ReplyRefusal
  | oversize
  | nonText
  | empty
  | toolCallUnacceptable
  | reasoningUnacceptable
  | unusable (defect : ReplyDefect)
deriving DecidableEq, Repr

/-- The admission of a reply: text only, and either text or calls. -/
def admittedReply (reply : PromptReply) : Except ReplyRefusal Unit := do
  .refuseIf (reply.blocks = [] ∧ reply.toolCalls = []) .empty
  .refuseIf (reply.blocks.any fun b ↦ !b.isText) .nonText
  .refuseIf (¬reply.toolCalls.all proposedToolCallIsAcceptable) .toolCallUnacceptable
  .refuseIf (¬reasoningIsAcceptable reply.reasoning) .reasoningUnacceptable

inductive SendOutcome
  | sent (replyLength : ℕ) (usage : Option Usage)
  | failed
  | deadlineExpired
  | outcomeUnknown
  | landedUndelivered (replyLength : Option ℕ) (refusal : ReplyRefusal) (usage : Option Usage)
deriving DecidableEq, Repr

def outcomeForFailure : EgressFailure → SendOutcome
  | .deadlineExpired => .deadlineExpired
  | .afterSend _ => .outcomeUnknown
  | .replyUnusable defect usage => .landedUndelivered none (.unusable defect) usage
  | .notConfigured | .transport _ | .refusedBeforeSend | .deputyAtCapacity | .kernelAtCapacity
  | .circuitOpen | .deputyUnreachable _ => .failed

structure SocketEgress where
  expectedUid : ℕ
  timeout : Vault.Duration
  maxFrameBytes : ℕ

def afterSend : EgressFailure → EgressFailure
  | .transport m => .afterSend m
  | other => other

def connectFailure (e : IoError) : EgressFailure :=
  match e.kind with
  | .connectionRefused | .notFound | .wouldBlock => .deputyUnreachable e.text
  | _ => .transport e.text

def frameLenWithinCap (n cap : ℕ) : Bool := n ≤ cap

def kernelSide : Side EgressFailure where
  expired := .deadlineExpired
  failed := .transport
  writeFailed text := .transport ("write: " ++ text)
  stopped := none
  closed := .transport "deputy closed the connection mid-frame"
  restoreFirst := true

/-- What the kernel checked, and the buffers it made for a reply. -/
inductive KernelNote
  | listenerChecked (uid : ℕ)
  | lengthChecked (len : ℕ)
  | allocated (n : ℕ)

/-- The answers of the world to the calls of one send, beside those on the socket. -/
structure SendWorld extends Socket where
  connect : Except IoError Unit
  listenerUid : Except String ℕ
  encodedLen : EgressFrameRequest → Except String ℕ
  encode : EgressFrameRequest → ℕ → Except String (List UInt8)
  setReadTimeout : Except String Unit
  setWriteTimeout : Except String Unit
  flush : Except String Unit

def credsMatchListenerUid (uid expectedUid : ℕ) : Bool := uid = expectedUid || uid = 0

/-- A length as four bytes, highest first. -/
def lengthBytes (n : ℕ) : List UInt8 := (leBytes 4 (n % 2 ^ 32)).reverse

def ofLengthBytes (bytes : List UInt8) : ℕ := ofLeBytes bytes.reverse

section Send

variable (cfg : SocketEgress) (world : SendWorld) (codec : ReplyCodec) (fuel : ℕ)

def arm : Job (Halt EgressFailure) (Conn KernelNote) PUnit := do
  Job.refuseIf (← ask world.spent) .deadlineExpired
  report (world.setReadTimeout.mapError .transport)
  report (world.setWriteTimeout.mapError .transport)

/-- The part of a send before the first write: the encoded frame. -/
def prepareSend (req : EgressRequest) :
    Job (Halt EgressFailure) (Conn KernelNote) (List UInt8) := do
  report (world.connect.mapError connectFailure)
  let uid ← report (world.listenerUid.mapError .transport)
  Job.refuseIf (¬credsMatchListenerUid uid cfg.expectedUid)
    (.transport "egress peer is not the expected uid")
  record (.note (.listenerChecked uid))
  let frame := frameOf req cfg.timeout
  let len ← report ((world.encodedLen frame).mapError .transport)
  let cap := egressRequestFrameMaxBytes
  Job.refuseIf (¬frameLenWithinCap len cap)
    (.transport s!"request frame of {len} bytes over the {cap}-byte cap")
  record (.note (.lengthChecked len))
  let buf ← report ((world.encode frame len).mapError .transport)
  arm world
  return buf

/-- The reply that was decoded, as the result of the send. -/
def sendResult : EgressFrameReply → Except EgressFailure PromptReply
  | .reply reply => .ok reply
  | .refusedBeforeSend => .error .refusedBeforeSend
  | .atCapacity => .error .deputyAtCapacity
  | .unusable defect usage => .error (.replyUnusable defect usage)

/-- The part from the first write on. -/
def exchangeFrames (buf : List UInt8) : Job (Halt EgressFailure) (Conn KernelNote) PromptReply := do
  (writeAllBy world.toSocket kernelSide fuel (lengthBytes buf.length)).mapError afterSend
  (writeAllBy world.toSocket kernelSide fuel buf).mapError afterSend
  report (world.flush.mapError fun e ↦ afterSend (.transport e))
  let len ← (readExactBy world.toSocket kernelSide fuel 4).mapError afterSend
  let n := ofLengthBytes len
  let cap := cfg.maxFrameBytes
  Job.refuseIf (¬frameLenWithinCap n cap)
    (.afterSend s!"deputy declared a {n}-byte reply frame over the {cap}-byte cap")
  record (.note (.allocated n))
  let body ← (readExactBy world.toSocket kernelSide fuel n).mapError afterSend
  let reply ← report ((codec.decode body).mapError fun e ↦ afterSend (.transport e))
  report (sendResult reply)

def send (req : EgressRequest) : Job (Halt EgressFailure) (Conn KernelNote) PromptReply := do
  let buf ← prepareSend cfg world req
  exchangeFrames cfg world codec fuel buf

end Send

/-! ### What is written, and when -/

section Guard

variable (cfg : SocketEgress) (world : SendWorld) (req : EgressRequest)

/-- Both checks were made, on this connection and this frame, and passed. -/
structure Checked (log : List (Event KernelNote)) : Prop where
  listener : ∃ uid, world.listenerUid = .ok uid ∧ credsMatchListenerUid uid cfg.expectedUid ∧
    .listenerChecked uid ∈ notesOf log
  length : ∃ len, world.encodedLen (frameOf req cfg.timeout) = .ok len ∧
    len ≤ egressRequestFrameMaxBytes ∧ .lengthChecked len ∈ notesOf log

/-- Every write came after both checks, and no buffer for a reply is over the cap. -/
structure Guarded (log : List (Event KernelNote)) : Prop where
  checked : ∀ before bytes, before ++ [.wrote bytes] <+: log → Checked cfg world req before
  bounded : ∀ n, .allocated n ∈ notesOf log → n ≤ cfg.maxFrameBytes

/-- In order, and with the checks behind. -/
def Cleared (log : List (Event KernelNote)) : Prop :=
  Guarded cfg world req log ∧ Checked cfg world req log

end Guard

section Order

variable {cfg : SocketEgress} {world : SendWorld} {req : EgressRequest}
variable {log : List (Event KernelNote)} {e : Event KernelNote}

theorem guarded_nil : Guarded cfg world req [] where
  checked before bytes hbegins := by simp at hbegins
  bounded n hn := nomatch hn

theorem Guarded.append (h : Guarded cfg world req log)
    (hwrote : ∀ bytes, e = .wrote bytes → Checked cfg world req log)
    (hnote : ∀ n, e = .note (.allocated n) → n ≤ cfg.maxFrameBytes) :
    Guarded cfg world req (log ++ [e]) where
  checked before bytes hbegins := by
    rcases prefix_concat_iff.mp hbegins with heq | hbegins
    · obtain ⟨rfl, hlast⟩ := append_inj' heq rfl
      exact hwrote bytes (cons.inj hlast).1.symm
    · exact h.checked before bytes hbegins
  bounded n hn := by
    rw [notesOf_append, mem_append] at hn
    rcases hn with hn | hn
    · exact h.bounded n hn
    · cases e with
      | note m => exact hnote n (by rw [mem_singleton.mp hn])
      | wrote bytes | received bytes => cases hn

theorem Checked.append (h : Checked cfg world req log) (e : Event KernelNote) :
    Checked cfg world req (log ++ [e]) := by
  obtain ⟨⟨uid, huid, hmatch, hlistener⟩, len, hlen, hcap, hlength⟩ := h
  constructor
  · exact ⟨uid, huid, hmatch, notesOf_append log [e] ▸ mem_append_left _ hlistener⟩
  · exact ⟨len, hlen, hcap, notesOf_append log [e] ▸ mem_append_left _ hlength⟩

/-- Noting a check keeps the order. -/
theorem Guarded.note (h : Guarded cfg world req log) {n}
    (hn : ∀ m, n ≠ .allocated m) : Guarded cfg world req (log ++ [.note n]) :=
  h.append (fun _ he ↦ nomatch he) fun m he ↦ absurd (Event.note.inj he) (hn m)

/-- After the checks, reading and writing keep the order. -/
theorem keptByIo_cleared : KeptByIo (Cleared cfg world req) := by
  rintro log e ⟨hguarded, hchecked⟩ hnote
  exact ⟨hguarded.append (fun _ _ ↦ hchecked) fun n he ↦ by simp [he, Event.noted] at hnote,
    hchecked.append e⟩

end Order

/-- The reply that was received in full: its length, and that many bytes. -/
def ReceivedReply (codec : ReplyCodec) (received : List UInt8) (r : EgressFrameReply) : Prop :=
  ∃ len body, received = len ++ body ∧ len.length = 4 ∧ body.length = ofLengthBytes len ∧
    codec.decode body = .ok r

/-- What a send may end with: a failure that is recorded as one of which nothing left is one before
the first write, or the peer's own word. -/
def TruthfulHalt (cfg : SocketEgress) (world : SendWorld) (codec : ReplyCodec) (req : EgressRequest)
    (h : Halt EgressFailure) (s : Conn KernelNote) : Prop :=
  Guarded cfg world req s.log ∧ ∀ e, h = .error e → outcomeForFailure e = .failed →
    sentOf s.log = [] ∨ ∃ r, r.IsRefusal ∧ ReceivedReply codec (receivedOf s.log) r

section Truth

variable {cfg : SocketEgress} {world : SendWorld} {codec : ReplyCodec} {fuel : ℕ}
variable {req : EgressRequest} {notes : List KernelNote} {h : Halt EgressFailure}
variable {s : Conn KernelNote}

/-- Before the first write, any failure is truthful. -/
theorem truthfulHalt_of_silent (hs : At (Guarded cfg world req) notes [] [] s) :
    TruthfulHalt cfg world codec req h s := ⟨hs.inv, fun _ _ _ ↦ .inl hs.sent_eq⟩

/-- From the first write on, a failure is truthful if it does not claim that nothing left. -/
theorem truthfulHalt_of_not_failed (hs : Guarded cfg world req s.log)
    (hfailed : ∀ e, h = .error e → outcomeForFailure e ≠ .failed) :
    TruthfulHalt cfg world codec req h s := ⟨hs, fun e he hno ↦ absurd hno (hfailed e he)⟩

variable {e : EgressFailure} {α : Type}

theorem truthfulHalt_error (hs : Guarded cfg world req s.log) (he : outcomeForFailure e ≠ .failed) :
    TruthfulHalt cfg world codec req (.error e) s :=
  truthfulHalt_of_not_failed hs fun _ h ↦ Halt.error.inj h ▸ he

theorem outcomeForFailure_afterSend_ne (text : String) :
    outcomeForFailure (.afterSend text) ≠ .failed := nofun

/-- The errors of the loops are of the transport or the deadline. -/
theorem kernelSide_all : kernelSide.All fun e ↦ outcomeForFailure (afterSend e) ≠ .failed where
  expired := by decide
  failed _ := outcomeForFailure_afterSend_ne _
  writeFailed _ := outcomeForFailure_afterSend_ne _
  stopped _ h := nomatch h
  closed := outcomeForFailure_afterSend_ne _

/-- A report before the first write. -/
theorem triple_report_silent {α ε : Type} {f : ε → EgressFailure} (x : Except ε α) :
    Job.Triple (At (Guarded cfg world req) notes [] []) (report (x.mapError f))
      (fun a s ↦ x = .ok a ∧ At (Guarded cfg world req) notes [] [] s)
      (TruthfulHalt cfg world codec req) := by
  rcases x with e | a
  · exact triple_fail fun s hs ↦ truthfulHalt_of_silent hs
  · exact triple_pure fun s hs ↦ ⟨rfl, hs⟩

theorem triple_refuseIf_silent {c : Prop} [Decidable c] :
    Job.Triple (At (Guarded cfg world req) notes [] []) (Job.refuseIf c e)
      (fun _ s ↦ ¬c ∧ At (Guarded cfg world req) notes [] [] s)
      (TruthfulHalt cfg world codec req) :=
  triple_refuseIf fun _ _ hs ↦ truthfulHalt_of_silent hs

theorem triple_arm : Job.Triple (At (Guarded cfg world req) notes [] []) (arm world)
    (fun _ ↦ At (Guarded cfg world req) notes [] []) (TruthfulHalt cfg world codec req) := by
  refine (triple_ask _).bind fun _ ↦ triple_refuseIf_silent.bind_fact fun _ _ ↦
    (triple_report_silent _).bind_fact fun _ _ ↦ ?_
  exact (triple_report_silent _).mono (fun _ hs ↦ hs) (fun _ _ hs ↦ hs.2) fun _ _ hs ↦ hs

/-- **Up to the first write nothing is sent**, and then both checks are behind. -/
theorem triple_prepareSend :
    Job.Triple (At (Guarded cfg world req) [] [] []) (prepareSend cfg world req)
      (fun _ s ↦ ∃ notes, At (Cleared cfg world req) notes [] [] s)
      (TruthfulHalt cfg world codec req) := by
  refine (triple_report_silent _).bind_fact fun _ _ ↦ ?_
  refine (triple_report_silent _).bind_fact fun uid huid ↦ ?_
  refine triple_refuseIf_silent.bind_fact fun _ hmatch ↦ ?_
  refine (triple_record fun log hlog _ ↦ hlog.note nofun).bind fun _ ↦ ?_
  refine (triple_report_silent _).bind_fact fun len hlen ↦ ?_
  refine triple_refuseIf_silent.bind_fact fun _ hcap ↦ ?_
  refine (triple_record fun log hlog _ ↦ hlog.note nofun).bind fun _ ↦ ?_
  refine (triple_report_silent _).bind_fact fun buf _ ↦ ?_
  refine triple_arm.bind fun _ ↦ triple_pure fun s hs ↦
    ⟨_, ⟨hs.inv, ?_, ?_⟩, hs.notes_eq, hs.sent_eq, hs.received_eq⟩
  · exact ⟨uid, huid, not_not.mp hmatch, by simp [hs.notes_eq, Event.noted]⟩
  · have hbound : len ≤ egressRequestFrameMaxBytes := by simpa [frameLenWithinCap] using hcap
    exact ⟨len, hlen, hbound, by simp [hs.notes_eq, Event.noted]⟩

variable {out inn : List UInt8}

/-- An I/O step after the first write: its failure claims nothing. -/
theorem triple_afterSend {x : Job (Halt EgressFailure) (Conn KernelNote) α}
    {Q : α → Conn KernelNote → Prop} {A : Conn KernelNote → Prop}
    (hA : ∀ s, A s → Guarded cfg world req s.log)
    (hx : Job.Triple (At (Cleared cfg world req) notes out inn) x Q
    (Halted (fun e ↦ outcomeForFailure (afterSend e) ≠ .failed) A)) :
    Job.Triple (At (Cleared cfg world req) notes out inn) (x.mapError afterSend) Q
      (TruthfulHalt cfg world codec req) :=
  hx.mapError (fun e s hs ↦ truthfulHalt_error (hA s hs.2.2) (hs.1 e rfl))
    (fun _ hs ↦ absurd rfl hs.2.1) fun s hs ↦ truthfulHalt_of_not_failed (hA s hs.2.2) nofun

theorem triple_write_afterSend (bytes : List UInt8) :
    Job.Triple (At (Cleared cfg world req) notes out inn)
      ((writeAllBy world.toSocket kernelSide fuel bytes).mapError afterSend)
      (fun _ ↦ At (Cleared cfg world req) notes (out ++ bytes) inn)
      (TruthfulHalt cfg world codec req) :=
  triple_afterSend (fun _ ⟨_, _, hs⟩ ↦ hs.inv.1)
    (triple_writeAllBy keptByIo_cleared kernelSide_all fuel bytes)

theorem triple_read_afterSend (n : ℕ) :
    Job.Triple (At (Cleared cfg world req) notes out inn)
      ((readExactBy world.toSocket kernelSide fuel n).mapError afterSend)
      (fun bytes s ↦ bytes.length = n ∧ At (Cleared cfg world req) notes out (inn ++ bytes) s)
      (TruthfulHalt cfg world codec req) :=
  triple_afterSend (fun _ ⟨_, hs⟩ ↦ hs.inv.1)
    (triple_readExactBy keptByIo_cleared kernelSide_all fuel n)

theorem triple_report_afterSend (x : Except String α) :
    Job.Triple (At (Cleared cfg world req) notes out inn)
      (report (x.mapError fun e ↦ afterSend (.transport e)))
      (fun a s ↦ x = .ok a ∧ At (Cleared cfg world req) notes out inn s)
      (TruthfulHalt cfg world codec req) := by
  rcases x with e | a
  · exact triple_fail fun s hs ↦ truthfulHalt_error hs.inv.1 (outcomeForFailure_afterSend_ne e)
  · exact triple_pure fun s hs ↦ ⟨rfl, hs⟩

theorem triple_exchangeFrames (buf : List UInt8) :
    Job.Triple (At (Cleared cfg world req) notes [] []) (exchangeFrames cfg world codec fuel buf)
      (fun _ s ↦ Guarded cfg world req s.log) (TruthfulHalt cfg world codec req) := by
  refine (triple_write_afterSend _).bind fun _ ↦ (triple_write_afterSend _).bind fun _ ↦ ?_
  refine (triple_report_afterSend _).bind_fact fun _ _ ↦ ?_
  refine (triple_read_afterSend 4).bind_fact fun len hlen ↦ ?_
  refine Job.Triple.bind_fact (triple_refuseIf fun _ s hs ↦
    truthfulHalt_error hs.inv.1 (outcomeForFailure_afterSend_ne _)) fun _ hcap ↦ ?_
  -- The buffer is made only for a length within the cap.
  have hallocated : ∀ n, Event.note (KernelNote.allocated (ofLengthBytes len)) =
      .note (.allocated n) → n ≤ cfg.maxFrameBytes := by
    intro n he
    have hbound : ofLengthBytes len ≤ cfg.maxFrameBytes := by
      simpa [frameLenWithinCap] using hcap
    have hn : ofLengthBytes len = n := by simpa using he
    exact hn ▸ hbound
  refine (triple_record fun log hlog _ ↦
    ⟨hlog.1.append (fun _ he ↦ nomatch he) hallocated, hlog.2.append _⟩).bind fun _ ↦ ?_
  refine (triple_read_afterSend _).bind_fact fun body hbody ↦ ?_
  refine (triple_report_afterSend _).bind_fact fun reply hdecode ↦ ?_
  -- The reply was received in full: only a refusal is recorded as a failure.
  cases reply with
  | reply reply => exact triple_pure fun s hs ↦ hs.inv.1
  | refusedBeforeSend | atCapacity =>
    refine triple_fail fun s hs ↦ ⟨hs.inv.1, fun _ _ _ ↦ .inr ⟨_, ?_, len, body, ?_, hlen,
      hbody, hdecode⟩⟩
    · simp [EgressFrameReply.IsRefusal]
    · simpa [Event.got] using hs.received_eq
  | unusable defect usage =>
    exact triple_fail fun s hs ↦ truthfulHalt_error hs.inv.1 nofun

/-- **However the peer and the socket behave**, a send writes only after both checks, makes no
buffer over its cap, and ends in a failure of which nothing left only before the first write or on a
refusal by the peer. -/
theorem triple_send :
    Job.Triple (At (Guarded cfg world req) [] [] []) (send cfg world codec fuel req)
      (fun _ s ↦ Guarded cfg world req s.log) (TruthfulHalt cfg world codec req) :=
  triple_prepareSend.bind fun buf ↦ triple_exists fun _ ↦ triple_exchangeFrames buf

end Truth

end Maknae.Kernel
