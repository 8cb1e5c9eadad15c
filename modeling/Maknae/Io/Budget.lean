import Maknae.Foundation.Job
import Mathlib.Data.List.Basic

/-!
# Socket loops under a budget

The kernel and the egress daemon read and write their connection with the same loops: wait until the
socket is ready, within what is left of a budget, then read or write as much as it takes. They
differ in what they report, and that is a `Side`.

The world answers every call, and it answers by how many calls were made before: a `Socket` is any
behaviour of the peer, the clock and the system. What a process does is kept in a log. The bytes it
wrote, the bytes it received and its own notes are read off the log.

The loops end only when the world lets them, so they run on fuel, and a run without fuel left is
**unfinished**. What is proved of a loop holds of an unfinished one too.
-/

namespace Maknae.Io

open Job List

/-! ### What a process did -/

inductive Event (ν : Type)
  | wrote (bytes : List UInt8)
  | received (bytes : List UInt8)
  | note (n : ν)

/-- A process on a connection: how many calls it made, and what it did. -/
structure Conn (ν : Type) where
  calls : ℕ
  log : List (Event ν)

variable {ν ε α : Type}

def Event.sent : Event ν → List UInt8
  | wrote bytes => bytes
  | _ => []

def Event.got : Event ν → List UInt8
  | received bytes => bytes
  | _ => []

def Event.noted : Event ν → List ν
  | note n => [n]
  | _ => []

def sentOf (log : List (Event ν)) : List UInt8 := log.flatMap Event.sent
def receivedOf (log : List (Event ν)) : List UInt8 := log.flatMap Event.got
def notesOf (log : List (Event ν)) : List ν := log.flatMap Event.noted

@[simp] theorem sentOf_append (l l' : List (Event ν)) : sentOf (l ++ l') = sentOf l ++ sentOf l' :=
  flatMap_append

@[simp] theorem receivedOf_append (l l' : List (Event ν)) :
    receivedOf (l ++ l') = receivedOf l ++ receivedOf l' := flatMap_append

@[simp] theorem notesOf_append (l l' : List (Event ν)) :
    notesOf (l ++ l') = notesOf l ++ notesOf l' :=
  flatMap_append

@[simp] theorem sentOf_singleton (e : Event ν) : sentOf [e] = e.sent := flatMap_singleton ..

@[simp] theorem receivedOf_singleton (e : Event ν) : receivedOf [e] = e.got :=
  flatMap_singleton ..

@[simp] theorem notesOf_singleton (e : Event ν) : notesOf [e] = e.noted := flatMap_singleton ..

/-- The answer of the world to the next call. -/
def ask (answer : ℕ → α) : Job (Halt ε) (Conn ν) α := fun s ↦
  (.ok (answer s.calls), { s with calls := s.calls + 1 })

def record (e : Event ν) : Job (Halt ε) (Conn ν) PUnit :=
  Job.change fun s ↦ { s with log := s.log ++ [e] }

/-! ### The world -/

inductive ErrorKind
  | interrupted
  | wouldBlock
  | connectionRefused
  | notFound
  | other
deriving DecidableEq, Repr

structure IoError where
  kind : ErrorKind
  text : String

/-- What a wait for the socket comes to. -/
inductive Poll
  | timedOut
  | ready
  | interrupted
  | failed (text : String)

/-- The answers to the calls on a socket. `spent` is whether the budget is, when the clock is read.
-/
structure Socket where
  spent : ℕ → Bool
  poll : ℕ → Poll
  write : ℕ → Except IoError ℕ
  read : ℕ → Except IoError (List UInt8)
  setNonblocking : ℕ → Except String Unit

/-- How one side reports. `stopped` is for a write that took nothing, where that is an error, and
`restoreFirst` is whether a socket that cannot be set back is reported before a failed write. -/
structure Side (ε : Type) where
  expired : ε
  failed : String → ε
  writeFailed : String → ε
  stopped : Option ε
  closed : ε
  restoreFirst : Bool

/-! ### The loops -/

/-- Wait until the socket is ready, within the budget. -/
def waitFor (sock : Socket) (side : Side ε) : ℕ → Job (Halt ε) (Conn ν) PUnit
  | 0 => Job.stop .unfinished
  | fuel + 1 => do
    if ← ask sock.spent then Job.fail side.expired
    else
      match ← ask sock.poll with
      | .timedOut => Job.fail side.expired
      | .ready => pure ⟨⟩
      | .interrupted => waitFor sock side fuel
      | .failed e => Job.fail (side.failed ("poll: " ++ e))

def writeIsRetried (e : IoError) : Bool := e.kind = .interrupted || e.kind = .wouldBlock

def readIsRetried (e : IoError) : Bool := e.kind = .interrupted

/-- Write what is left. -/
def writeLoop (sock : Socket) (side : Side ε) : ℕ → List UInt8 → Job (Halt ε) (Conn ν) PUnit
  | _, [] => pure ⟨⟩
  | 0, _ => Job.stop .unfinished
  | fuel + 1, b :: rest => do
    waitFor sock side fuel
    match ← ask sock.write with
    | .ok 0 =>
      match side.stopped with
      | some e => Job.fail e
      | none => writeLoop sock side fuel (b :: rest)
    | .ok (n + 1) =>
      record (.wrote ((b :: rest).take (n + 1)))
      writeLoop sock side fuel ((b :: rest).drop (n + 1))
    | .error e =>
      if writeIsRetried e then writeLoop sock side fuel (b :: rest)
      else Job.fail (side.writeFailed e.text)

/-- Report an error that was taken as a value. -/
def report (x : Except ε α) : Job (Halt ε) (Conn ν) α :=
  match x with
  | .ok a => pure a
  | .error e => Job.fail e

/-- Write all bytes within the budget. -/
def writeAllBy (sock : Socket) (side : Side ε) (fuel : ℕ) (buf : List UInt8) :
    Job (Halt ε) (Conn ν) PUnit := do
  report ((← ask sock.setNonblocking).mapError side.failed)
  let out ← (writeLoop sock side fuel buf).attempt
  let back := (← ask sock.setNonblocking).mapError side.failed
  if side.restoreFirst then
    report back
    report out
  else
    report out
    report back

/-- Read exactly so many bytes. -/
def readExactBy (sock : Socket) (side : Side ε) : ℕ → ℕ → Job (Halt ε) (Conn ν) (List UInt8)
  | _, 0 => pure []
  | 0, _ => Job.stop .unfinished
  | fuel + 1, need + 1 => do
    waitFor sock side fuel
    match ← ask sock.read with
    | .ok [] => Job.fail side.closed
    | .ok (b :: bytes) =>
      let got := (b :: bytes).take (need + 1)
      record (.received got)
      let rest ← readExactBy sock side fuel (need + 1 - got.length)
      return got ++ rest
    | .error e =>
      if readIsRetried e then readExactBy sock side fuel (need + 1)
      else Job.fail (side.failed e.text)

/-! ### What the loops do -/

/-- An invariant of the log, and what can be read off it. -/
structure At (I : List (Event ν) → Prop) (notes : List ν) (sent received : List UInt8)
    (s : Conn ν) : Prop where
  inv : I s.log
  notes_eq : notesOf s.log = notes
  sent_eq : sentOf s.log = sent
  received_eq : receivedOf s.log = received

/-- A halt that is no panic, with an error that satisfies `R`. -/
def Halted (R : ε → Prop) (A : Conn ν → Prop) (h : Halt ε) (s : Conn ν) : Prop :=
  (∀ e, h = .error e → R e) ∧ h ≠ .panicked ∧ A s

/-- All that a side reports satisfies `R`. -/
structure Side.All (side : Side ε) (R : ε → Prop) : Prop where
  expired : R side.expired
  failed : ∀ text, R (side.failed text)
  writeFailed : ∀ text, R (side.writeFailed text)
  stopped : ∀ e ∈ side.stopped, R e
  closed : R side.closed

/-- Reading and writing keep the invariant. -/
def KeptByIo (I : List (Event ν) → Prop) : Prop :=
  ∀ log e, I log → e.noted = [] → I (log ++ [e])

section Loops

variable {I : List (Event ν) → Prop} {notes : List ν} {out inn : List UInt8} {R : ε → Prop}
variable {sock : Socket} {side : Side ε}

variable {s : Conn ν} {A : Conn ν → Prop} {E : Halt ε → Conn ν → Prop}

theorem halted_error {e} (he : R e) (hs : A s) :
    Halted R A (.error e) s :=
  ⟨fun _ h ↦ Halt.error.inj h ▸ he, nofun, hs⟩

theorem halted_unfinished (hs : A s) :
    Halted R A (.unfinished : Halt ε) s := ⟨nofun, nofun, hs⟩

theorem Halted.mono {A B : Conn ν → Prop}
    (hAB : ∀ s, A s → B s) {h : Halt ε} (hs : Halted R A h s) :
    Halted R B h s := ⟨hs.1, hs.2.1, hAB s hs.2.2⟩

theorem triple_ask (answer : ℕ → α) :
    Job.Triple (At I notes out inn) (ask answer) (fun _ ↦ At I notes out inn) E :=
  fun _ hs ↦ ⟨hs.inv, hs.notes_eq, hs.sent_eq, hs.received_eq⟩

theorem triple_record {e : Event ν} (hI : ∀ log, I log → notesOf log = notes → I (log ++ [e])) :
    Job.Triple (At I notes out inn) (record e)
      (fun _ ↦ At I (notes ++ e.noted) (out ++ e.sent) (inn ++ e.got)) E :=
  triple_change fun s hs ↦
    { inv := hI s.log hs.inv hs.notes_eq
      notes_eq := by simp [hs.notes_eq]
      sent_eq := by simp [hs.sent_eq]
      received_eq := by simp [hs.received_eq] }

theorem triple_report {x : Except ε α} (hx : ∀ e, x = .error e → R e) :
    Job.Triple (At I notes out inn) (report x) (fun a s ↦ x = .ok a ∧ At I notes out inn s)
      (Halted R (At I notes out inn)) := by
  rcases x with e | a
  · exact triple_fail fun s hs ↦ halted_error (hx e rfl) hs
  · exact triple_pure fun s hs ↦ ⟨rfl, hs⟩

/-- A wait leaves no trace. -/
theorem triple_waitFor (hside : side.All R) (fuel : ℕ) :
    Job.Triple (At I notes out inn) (waitFor sock side fuel) (fun _ ↦ At I notes out inn)
      (Halted R (At I notes out inn)) := by
  induction fuel with
  | zero => exact triple_stop fun s hs ↦ halted_unfinished hs
  | succ fuel ih =>
    refine (triple_ask _).bind fun spent ↦ triple_ite
      (fun _ ↦ triple_fail fun s hs ↦ halted_error hside.expired hs) fun _ ↦
      (triple_ask _).bind fun answer ↦ ?_
    cases answer with
    | timedOut => exact triple_fail fun s hs ↦ halted_error hside.expired hs
    | ready => exact triple_pure fun s hs ↦ hs
    | interrupted => exact ih
    | failed e => exact triple_fail fun s hs ↦ halted_error (hside.failed _) hs

/-- **A write loop writes a part of the buffer, from its start**, and all of it when it ends. -/
theorem triple_writeLoop (hI : KeptByIo I) (hside : side.All R) (fuel : ℕ) (buf : List UInt8) :
    Job.Triple (At I notes out inn) (writeLoop sock side fuel buf)
      (fun _ ↦ At I notes (out ++ buf) inn)
      (Halted R fun s ↦ ∃ part, part <+: buf ∧ At I notes (out ++ part) inn s) := by
  -- Nothing of the buffer is written where the loop halts before a write.
  have hnone : ∀ {buf : List UInt8} {out : List UInt8} (s : Conn ν), At I notes out inn s →
      ∃ part, part <+: buf ∧ At I notes (out ++ part) inn s := fun s hs ↦
    ⟨[], nil_prefix, by rwa [append_nil]⟩
  induction fuel generalizing out buf with
  | zero =>
    cases buf with
    | nil => exact triple_pure fun s hs ↦ by rwa [append_nil]
    | cons b rest => exact triple_stop fun s hs ↦ halted_unfinished (hnone s hs)
  | succ fuel ih =>
    cases buf with
    | nil => exact triple_pure fun s hs ↦ by rwa [append_nil]
    | cons b rest =>
      refine ((triple_waitFor hside fuel).mono (fun _ hs ↦ hs) (fun _ _ hs ↦ hs)
        fun h s hs ↦ hs.mono hnone).bind fun _ ↦ (triple_ask _).bind fun answer ↦ ?_
      rcases answer with e | (_ | n)
      · refine triple_ite (fun _ ↦ ih (b :: rest)) fun _ ↦ ?_
        exact triple_fail fun s hs ↦ halted_error (hside.writeFailed _) (hnone s hs)
      · show Job.Triple _ (match side.stopped with
          | some e => Job.fail e
          | none => writeLoop sock side fuel (b :: rest)) _ _
        rcases hstopped : side.stopped with _ | e
        · exact ih (b :: rest)
        · exact triple_fail fun s hs ↦ halted_error (hside.stopped e hstopped) (hnone s hs)
      · refine (triple_record (fun log hlog _ ↦ hI log _ hlog rfl)).bind fun _ ↦ ?_
        have hcut := take_append_drop (n + 1) (b :: rest)
        have ih' := @ih (out ++ (b :: rest).take (n + 1)) ((b :: rest).drop (n + 1))
        refine ih'.mono (fun s hs ↦ ?_) (fun _ s hs ↦ ?_)
          fun h s hs ↦ hs.mono fun s ⟨part, hpart, hs⟩ ↦ ?_
        · exact (append_nil notes ▸ append_nil inn ▸ hs :
            At I notes (out ++ (b :: rest).take (n + 1)) inn s)
        · rwa [append_assoc, hcut] at hs
        · refine ⟨(b :: rest).take (n + 1) ++ part, ?_, by rwa [← append_assoc]⟩
          obtain ⟨tail, htail⟩ := hpart
          exact ⟨tail, by rw [append_assoc, htail, hcut]⟩

theorem triple_writeAllBy (hI : KeptByIo I) (hside : side.All R) (fuel : ℕ) (buf : List UInt8) :
    Job.Triple (At I notes out inn) (writeAllBy sock side fuel buf)
      (fun _ ↦ At I notes (out ++ buf) inn)
      (Halted R fun s ↦ ∃ part, part <+: buf ∧ At I notes (out ++ part) inn s) := by
  have hmap : ∀ {x : Except String Unit} e, x.mapError side.failed = .error e → R e := by
    intro x e h
    rcases x with text | _
    · exact Except.error.inj h ▸ hside.failed text
    · exact nomatch h
  -- Past the loop the result is known, and with it how much was written.
  have hafter : ∀ {x y : Except ε Unit} (w : List UInt8), w <+: buf →
      (x = .ok () → y = .ok () → w = buf) → (∀ e, x = .error e → R e) →
      (∀ e, y = .error e → R e) →
      Job.Triple (At I notes (out ++ w) inn) (do report x; report y)
        (fun _ ↦ At I notes (out ++ buf) inn)
        (Halted R fun s ↦ ∃ part, part <+: buf ∧ At I notes (out ++ part) inn s) := by
    intro x y w hw hall hx hy
    rcases x with e | _
    · exact (triple_fail (Q := fun _ _ ↦ False) fun s hs ↦
        halted_error (hx e rfl) ⟨w, hw, hs⟩).bind fun _ ↦ fun _ hs ↦ hs.elim
    · refine (triple_pure (Q := fun _ ↦ At I notes (out ++ w) inn) fun s hs ↦ hs).bind
        fun _ ↦ ?_
      rcases y with e | _
      · exact triple_fail fun s hs ↦ halted_error (hy e rfl) ⟨w, hw, hs⟩
      · exact triple_pure fun s hs ↦ by rwa [← hall rfl rfl]
  refine ((triple_ask _).bind fun first ↦ ?_)
  refine ((triple_report hmap).mono (fun _ hs ↦ hs) (fun _ _ hs ↦ hs.2) fun h s hs ↦
    hs.mono fun s hs ↦ ⟨[], nil_prefix, by rwa [append_nil]⟩).bind fun _ ↦ ?_
  refine ((triple_writeLoop hI hside fuel buf).attempt
    (R := fun result s ↦ ∃ w, w <+: buf ∧ (result = .ok ⟨⟩ → w = buf) ∧
      (∀ e, result = .error e → R e) ∧ At I notes (out ++ w) inn s)
    (fun _ s hs ↦ ⟨buf, prefix_refl _, fun _ ↦ rfl, nofun, hs⟩) fun e s hs ↦ ?_).bind
    fun result ↦ triple_exists fun w ↦ ?_
  · obtain ⟨part, hpart, hs'⟩ := hs.2.2
    exact ⟨part, hpart, nofun, fun _ h ↦ Except.error.inj h ▸ hs.1 e rfl, hs'⟩
  · refine Job.Triple.of_fact (p := w <+: buf ∧ (result = .ok ⟨⟩ → w = buf) ∧
      ∀ e, result = .error e → R e) (fun s hs ↦ ⟨hs.1, hs.2.1, hs.2.2.1⟩)
      fun ⟨hw, hall, hresult⟩ ↦ ?_
    refine Job.Triple.of_imp ?_ fun s hs ↦ hs.2.2.2
    exact (triple_ask _).bind fun back ↦ triple_ite
      (fun _ ↦ hafter w hw (fun _ h ↦ hall h) hmap hresult)
      fun _ ↦ hafter w hw (fun h _ ↦ hall h) hresult hmap

/-- **A read loop ends with as many bytes as it was asked for.** -/
theorem triple_readExactBy (hI : KeptByIo I) (hside : side.All R) (fuel need : ℕ) :
    Job.Triple (At I notes out inn) (readExactBy sock side fuel need)
      (fun bytes s ↦ bytes.length = need ∧ At I notes out (inn ++ bytes) s)
      (Halted R fun s ↦ ∃ part, At I notes out (inn ++ part) s) := by
  have hnone : ∀ {inn : List UInt8} (s : Conn ν), At I notes out inn s →
      ∃ part, At I notes out (inn ++ part) s := fun s hs ↦ ⟨[], by rwa [append_nil]⟩
  induction fuel generalizing inn need with
  | zero =>
    cases need with
    | zero => exact triple_pure fun s hs ↦ ⟨rfl, by rwa [append_nil]⟩
    | succ need => exact triple_stop fun s hs ↦ halted_unfinished (hnone s hs)
  | succ fuel ih =>
    cases need with
    | zero => exact triple_pure fun s hs ↦ ⟨rfl, by rwa [append_nil]⟩
    | succ need =>
      refine ((triple_waitFor hside fuel).mono (fun _ hs ↦ hs) (fun _ _ hs ↦ hs)
        fun h s hs ↦ hs.mono hnone).bind fun _ ↦ (triple_ask _).bind fun answer ↦ ?_
      rcases answer with e | (_ | ⟨b, bytes⟩)
      · refine triple_ite (fun _ ↦ ih (need + 1)) fun _ ↦ ?_
        exact triple_fail fun s hs ↦ halted_error (hside.failed _) (hnone s hs)
      · exact triple_fail fun s hs ↦ halted_error hside.closed (hnone s hs)
      · refine (triple_record (fun log hlog _ ↦ hI log _ hlog rfl)).bind fun _ ↦ ?_
        have ih' := @ih (inn ++ (b :: bytes).take (need + 1))
          (need + 1 - ((b :: bytes).take (need + 1)).length)
        refine (ih'.mono (fun s hs ↦ ?_) (fun _ s hs ↦ hs)
          fun h s hs ↦ hs.mono fun s ⟨part, hs⟩ ↦ ?_).bind fun rest ↦
          triple_pure fun s hs ↦ ⟨?_, ?_⟩
        · exact (append_nil notes ▸ append_nil out ▸ hs :
            At I notes out (inn ++ (b :: bytes).take (need + 1)) s)
        · have hle : ((b :: bytes).take (need + 1)).length ≤ need + 1 := length_take_le _ _
          rw [length_append]
          omega
        · rw [← append_assoc]
          exact hs.2
        · exact ⟨(b :: bytes).take (need + 1) ++ part, by rwa [← append_assoc]⟩

end Loops

end Maknae.Io
