import Maknae.Audit.BlockingGuard
import Maknae.Audit.Record

/-!
# The audit sink

Any number of callers append records to one file. Each append that is admitted gets a worker, and
the workers take turns at the writer, which one mutex guards. A worker writes its line in as many
writes as it takes and synchronizes the file; the caller waits for it, or stops waiting at its bound
or at any time, and the worker goes on all the same. Every write may put only some of the bytes into
the file, and every write and the synchronization may fail or panic.

`step` is one event of this system: a call, a worker that takes the writer, one write, and so on.
The phase of the write is kept with the holder of the mutex, so that there is one write at most.

What a run comes to is `Standing`: behind the initial trail and the lines of the workers that
succeeded stands nothing, or the part of a line the holder has written, or **what the one worker
that failed left there**. A failed worker leaves the flag of the writer up, so every later worker
finds it and gives up, and the lines of those that succeeded are an initial part of the order in
which the workers had the writer (`Sound`).
-/

namespace Maknae.Audit

inductive PrimaryOutcome
  | ok
  | refusedBreakerOpen
  | refusedAtCapacity
  | writeFailed
  | writeUnconfirmed

/-! ### The state -/

/-- How a worker ended: with the answer of the write, or not at all (a panic or a cancellation). -/
abbrev Joined := Except String (Except AuditError Unit)

inductive Worker
  | queued
  | holding
  /-- The write has returned, and the slot of the breaker is still taken. -/
  | returned (r : Joined)
  | joined (r : Joined)

inductive Caller
  | waiting
  | answered (r : Except AuditError Unit)
  /-- The caller's future was dropped. -/
  | gone

/-- An append that was admitted. -/
structure Call (ρ : Type) where
  record : ρ
  line : List UInt8
  bound : Option ℕ
  attempt : ℕ
  worker : Worker
  caller : Caller

inductive Phase
  | writing (rest : List UInt8)
  | syncing

/-- The worker that has the writer, and where it is in its write. -/
structure Hold where
  call : ℕ
  phase : Phase

structure AuditSink (ρ : Type) where
  file : List UInt8
  /-- The file as it was at the last synchronization that succeeded. -/
  synced : List UInt8
  failed : Bool
  poisoned : Bool
  holder : Option Hold
  busy : WriterBusy
  busyLimit : ℕ
  breaker : BlockingBreaker
  calls : List (Call ρ)
  /-- The calls that were answered without a worker. -/
  refusals : List (ρ × AuditError)
  mirrored : List (ρ × PrimaryOutcome)

/-- What the system answers to a write, and how many bytes got into the file. -/
inductive WriteAnswer
  | wrote (n : ℕ)
  | interrupted
  | failed (left : ℕ) (detail : String)
  | panicked (left : ℕ) (detail : String)

inductive SyncAnswer
  | synced
  | failed (detail : String)
  | panicked (detail : String)

inductive Event (ρ : Type)
  /-- A caller appends a record, up to the spawn of its worker. -/
  | append (record : ρ) (bound : Option ℕ) (now : ℕ)
  /-- A worker takes the writer. -/
  | lock (i now : ℕ)
  | write (answer : WriteAnswer)
  | sync (answer : SyncAnswer)
  /-- A worker ends, and its slot is free. -/
  | release (i : ℕ)
  /-- A worker that has not begun is dropped with the runtime. -/
  | cancel (i : ℕ) (detail : String)
  /-- The caller takes the result of its worker. -/
  | answer (i : ℕ)
  /-- The bound of the caller has passed. -/
  | elapse (i : ℕ)
  | abandon (i : ℕ)

variable {ν ρ : Type}

namespace AuditSink

/-- The sink over a file that was opened and synchronized. -/
def fromFile (epoch : ℕ) (file : List UInt8) : AuditSink ρ where
  file := file
  synced := file
  failed := false
  poisoned := false
  holder := none
  busy := ⟨epoch, 0⟩
  busyLimit := auditWriterBusyRefuseAfter
  breaker := .new auditAppendBreakerTripAfter
  calls := []
  refusals := []
  mirrored := []

/-! ### The events -/

def setWorker (s : AuditSink ρ) (i : ℕ) (w : Worker) : AuditSink ρ :=
  { s with calls := s.calls.modify i fun c ↦ { c with worker := w } }

def setCaller (s : AuditSink ρ) (i : ℕ) (caller : Caller) : AuditSink ρ :=
  { s with calls := s.calls.modify i fun c ↦ { c with caller := caller } }

def mirrorJournald (s : AuditSink ρ) (record : ρ) (outcome : PrimaryOutcome) : AuditSink ρ :=
  { s with mirrored := s.mirrored ++ [(record, outcome)] }

def refuse (s : AuditSink ρ) (record : ρ) (e : AuditError) : AuditSink ρ :=
  { s with refusals := s.refusals ++ [(record, e)] }

/-- A refusal before any work: it is noted for the log, and the mirror still gets the record. -/
def refuseUnspawned (s : AuditSink ρ) (record : ρ) (now : ℕ) (outcome : PrimaryOutcome)
    (message : String) : AuditSink ρ :=
  ({ s with breaker := (s.breaker.shouldLogRefusalAt now).2 }.mirrorJournald record outcome).refuse
    record (.writePrimary message)

def appendInner (serde : SerdeJson ν) (toValue : ρ → Except String (Json ν)) (s : AuditSink ρ)
    (record : ρ) (bound : Option ℕ) (now : ℕ) : AuditSink ρ :=
  match canonicalJson serde toValue record with
  | .error e => s.refuse record e
  | .ok text =>
    let line := utf8Bytes (text.push '\n')
    if s.busy.busyLongerThan s.busyLimit now then
      let ms := s.busyLimit / 1000000
      s.refuseUnspawned record now .refusedBreakerOpen s!"audit writer busy for more than {ms}ms"
    else
      match s.breaker.beginAttemptAt now with
      | (.admitAttempt attempt, breaker) =>
        { s with
          breaker := breaker
          calls := s.calls ++ [⟨record, line, bound, attempt, .queued, .waiting⟩] }
      | (.refuseOpen, breaker) =>
        { s with breaker := breaker }.refuseUnspawned record now .refusedBreakerOpen
          "audit append circuit breaker open"
      | (.refuseAtCapacity, breaker) =>
        { s with breaker := breaker }.refuseUnspawned record now .refusedAtCapacity
          "audit append worker capacity exhausted"

/-- The start of a worker's write, once the mutex is free. -/
def lock (s : AuditSink ρ) (i : ℕ) (line : List UInt8) (now : ℕ) : AuditSink ρ :=
  if s.poisoned then
    s.setWorker i (.returned (.ok (.error
      (.writePrimary "audit writer panicked; primary sink requires recovery"))))
  else if s.failed then
    s.setWorker i (.returned (.ok (.error
      (.writePrimary "prior audit append failed; primary sink requires recovery"))))
  else
    { s.setWorker i .holding with
      failed := true
      busy := s.busy.holdFrom now
      holder := some ⟨i, .writing line⟩ }

/-- The holder gives the writer back. -/
def unlock (s : AuditSink ρ) (i : ℕ) (r : Joined) : AuditSink ρ :=
  { s.setWorker i (.returned r) with
    holder := none
    busy := s.busy.drop }

/-- The holder gives the writer back by a panic. -/
def unwind (s : AuditSink ρ) (i : ℕ) (detail : String) : AuditSink ρ :=
  { s.unlock i (.error detail) with poisoned := true }

def put (s : AuditSink ρ) (bytes : List UInt8) : AuditSink ρ := { s with file := s.file ++ bytes }

/-- One turn of the loop that writes the rest of a line. -/
def write (s : AuditSink ρ) (i : ℕ) (rest : List UInt8) : WriteAnswer → AuditSink ρ
  | .wrote n =>
    if n = 0 then s.unlock i (.ok (.error (.writePrimary "failed to write whole buffer")))
    else if rest.length < n then
      (s.put rest).unwind i "range start index out of range for slice"
    else
      { s.put (rest.take n) with
        holder := some ⟨i, if rest.drop n = [] then .syncing else .writing (rest.drop n)⟩ }
  | .interrupted => s
  | .failed left detail => (s.put (rest.take left)).unlock i (.ok (.error (.writePrimary detail)))
  | .panicked left detail => (s.put (rest.take left)).unwind i detail

def sync (s : AuditSink ρ) (i : ℕ) : SyncAnswer → AuditSink ρ
  | .synced => { s.unlock i (.ok (.ok ())) with failed := false, synced := s.file }
  | .failed detail => s.unlock i (.ok (.error (.writePrimary detail)))
  | .panicked detail => s.unwind i detail

def unconfirmed (bound : ℕ) : AuditError :=
  let ms := bound / 1000000
  .writePrimary s!"audit append unconfirmed within {ms}ms; the record may still land"

/-- What the caller is told of how its worker ended. -/
def settle : Joined → Except AuditError Unit
  | .error e => .error (.writePrimary s!"blocking write task panicked/was cancelled: {e}")
  | .ok r => r

/-- What the mirror is told of it. -/
def settleOutcome : Joined → PrimaryOutcome
  | .ok (.ok ()) => .ok
  | _ => .writeFailed

/-- One event, when it can happen. -/
def step (serde : SerdeJson ν) (toValue : ρ → Except String (Json ν)) (s : AuditSink ρ) :
    Event ρ → Option (AuditSink ρ)
  | .append record bound now => some (s.appendInner serde toValue record bound now)
  | .lock i now =>
    match s.holder, s.calls[i]? with
    | none, some ⟨_, line, _, _, .queued, _⟩ => some (s.lock i line now)
    | _, _ => none
  | .write a =>
    match s.holder with
    | some ⟨i, .writing rest⟩ => some (s.write i rest a)
    | _ => none
  | .sync a =>
    match s.holder with
    | some ⟨i, .syncing⟩ => some (s.sync i a)
    | _ => none
  | .release i =>
    match s.calls[i]? with
    | some ⟨_, _, _, attempt, .returned r, _⟩ =>
      some { s.setWorker i (.joined r) with breaker := s.breaker.recordSuccess attempt }
    | _ => none
  | .cancel i detail =>
    match s.calls[i]? with
    | some ⟨_, _, _, _, .queued, _⟩ => some (s.setWorker i (.returned (.error detail)))
    | _ => none
  | .answer i =>
    match s.calls[i]? with
    | some ⟨record, _, _, _, .joined r, .waiting⟩ =>
      some ((s.setCaller i (.answered (settle r))).mirrorJournald record (settleOutcome r))
    | _ => none
  | .elapse i =>
    match s.calls[i]? with
    | some ⟨record, _, some bound, _, _, .waiting⟩ =>
      some ((s.setCaller i (.answered (.error (unconfirmed bound)))).mirrorJournald record
        .writeUnconfirmed)
    | _ => none
  | .abandon i =>
    match s.calls[i]? with
    | some ⟨_, _, _, _, _, .waiting⟩ => some (s.setCaller i .gone)
    | _ => none

/-- A run of the sink. -/
def run (serde : SerdeJson ν) (toValue : ρ → Except String (Json ν)) (s : AuditSink ρ)
    (events : List (Event ρ)) : Option (AuditSink ρ) :=
  events.foldlM (step serde toValue) s

end AuditSink

end Maknae.Audit
