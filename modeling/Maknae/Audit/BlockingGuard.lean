import Mathlib.Algebra.Ring.Nat
import Mathlib.Data.List.Perm.Subperm
import Mathlib.Order.Nat

/-!
# The guards in front of the audit writer

An append is refused before any work is spawned when the writer has been in one write for too long,
or when too many appends are in flight. Times are nanoseconds on one clock, and a time before
another's start counts as no time gone by.

An attempt that is reclaimed as stale gives its slot away and goes on running. That is why the
attempts at work are counted beside the breaker (`Workers`): a slot bounds those it holds, and the
reclaims bound the others.
-/

namespace Maknae.Audit

open List

def auditAppendBreakerTripAfter : ℕ := 3
def auditAppendBreakerMaxInFlight : ℕ := 32
def auditAppendStaleAfter : ℕ := 30000000000
def auditAppendMaxStaleReclaims : ℕ := 3
def auditAppendBreakerRefusalLogEvery : ℕ := 30000000000
def auditWriterBusyRefuseAfter : ℕ := 5000000000

/-- The largest value of the counters below. -/
def u64Max : ℕ := 2 ^ 64 - 1

/-- When the writer began the write it is in; zero while idle. -/
structure WriterBusy where
  epoch : ℕ
  since : ℕ

namespace WriterBusy

def holdFrom (busy : WriterBusy) (now : ℕ) : WriterBusy :=
  { busy with since := min (min (now - busy.epoch) u64Max + 1) u64Max }

/-- The hold is dropped. -/
def drop (busy : WriterBusy) : WriterBusy := { busy with since := 0 }

def busyLongerThan (busy : WriterBusy) (limit now : ℕ) : Bool :=
  match busy.since with
  | 0 => false
  | since + 1 => decide (limit < now - (busy.epoch + since))

end WriterBusy

inductive BreakerAdmission
  | admitAttempt (attempt : ℕ)
  | refuseOpen
  | refuseAtCapacity

structure BlockingBreaker where
  /-- The attempts in flight with the times they began, oldest first. -/
  inFlight : List (ℕ × ℕ)
  lastRefusalLoggedAt : Option ℕ
  staleReclaims : ℕ
  nextAttemptId : ℕ
  tripAfter : ℕ
  maxInFlight : ℕ
  staleAfter : ℕ
  maxStaleReclaims : ℕ
  refusalLogEvery : ℕ

namespace BlockingBreaker

def newWithLimits (tripAfter maxInFlight : ℕ) : BlockingBreaker where
  inFlight := []
  lastRefusalLoggedAt := none
  staleReclaims := 0
  nextAttemptId := 0
  tripAfter := tripAfter
  maxInFlight := maxInFlight
  staleAfter := auditAppendStaleAfter
  maxStaleReclaims := auditAppendMaxStaleReclaims
  refusalLogEvery := auditAppendBreakerRefusalLogEvery

def new (tripAfter : ℕ) : BlockingBreaker := newWithLimits tripAfter auditAppendBreakerMaxInFlight

/-- Take stale attempts from the front while reclaims are left. -/
def reclaim (staleAfter maxStaleReclaims now : ℕ) : List (ℕ × ℕ) → ℕ → List (ℕ × ℕ) × ℕ
  | [], reclaims => ([], reclaims)
  | (attempt, startedAt) :: rest, reclaims =>
    if reclaims < maxStaleReclaims ∧ staleAfter ≤ now - startedAt then
      reclaim staleAfter maxStaleReclaims now rest (reclaims + 1)
    else ((attempt, startedAt) :: rest, reclaims)

def beginAttemptAt (b : BlockingBreaker) (now : ℕ) : BreakerAdmission × BlockingBreaker :=
  if b.tripAfter = 0 then (.refuseOpen, b)
  else
    let (inFlight, staleReclaims) :=
      reclaim b.staleAfter b.maxStaleReclaims now b.inFlight b.staleReclaims
    if inFlight.length < b.maxInFlight then
      (.admitAttempt b.nextAttemptId,
        { b with
          inFlight := inFlight ++ [(b.nextAttemptId, now)]
          staleReclaims := staleReclaims
          nextAttemptId := min (b.nextAttemptId + 1) u64Max })
    else
      let b := { b with inFlight := inFlight, staleReclaims := staleReclaims }
      (if b.maxStaleReclaims ≤ staleReclaims then .refuseOpen else .refuseAtCapacity, b)

def shouldLogRefusalAt (b : BlockingBreaker) (now : ℕ) : Bool × BlockingBreaker :=
  if b.lastRefusalLoggedAt.all fun loggedAt ↦ decide (b.refusalLogEvery ≤ now - loggedAt) then
    (true, { b with lastRefusalLoggedAt := some now })
  else (false, b)

def recordSuccess (b : BlockingBreaker) (attempt : ℕ) : BlockingBreaker :=
  { b with inFlight := b.inFlight.eraseP fun p ↦ p.1 == attempt }

end BlockingBreaker

/-! ### The attempts at work -/

/-- A call on the breaker. -/
inductive BreakerCall
  | beginAttempt (now : ℕ)
  | success (attempt : ℕ)
deriving DecidableEq, Repr

/-- The breaker, and the attempts that were admitted and have not completed. -/
structure Workers where
  breaker : BlockingBreaker
  running : List ℕ

namespace Workers

open BlockingBreaker

def fresh (tripAfter maxInFlight : ℕ) : Workers := ⟨newWithLimits tripAfter maxInFlight, []⟩

def call (w : Workers) : BreakerCall → Workers
  | .beginAttempt now =>
    match w.breaker.beginAttemptAt now with
    | (.admitAttempt attempt, b) => ⟨b, attempt :: w.running⟩
    | (_, b) => ⟨b, w.running⟩
  | .success attempt => ⟨w.breaker.recordSuccess attempt, w.running.erase attempt⟩

def run (w : Workers) (calls : List BreakerCall) : Workers := calls.foldl call w

/-- The attempts that hold a slot. -/
def held (w : Workers) : List ℕ := w.breaker.inFlight.map Prod.fst

/-- The breaker keeps its limits. Every attempt with a slot is at work, and at most the reclaimed
ones are at work without. -/
structure Kept (maxInFlight : ℕ) (w : Workers) : Prop where
  maxInFlight_eq : w.breaker.maxInFlight = maxInFlight
  maxStaleReclaims_eq : w.breaker.maxStaleReclaims = auditAppendMaxStaleReclaims
  subperm : w.held.Subperm w.running
  length_running : w.running.length ≤ w.held.length + w.breaker.staleReclaims
  length_held : w.held.length ≤ maxInFlight
  reclaims_le : w.breaker.staleReclaims ≤ auditAppendMaxStaleReclaims

end Workers

/-- Reclaiming takes attempts from the front, and counts them. -/
theorem BlockingBreaker.reclaim_spec (staleAfter maxStaleReclaims now : ℕ)
    (inFlight : List (ℕ × ℕ)) {reclaims} (h : reclaims ≤ maxStaleReclaims) :
    let left := reclaim staleAfter maxStaleReclaims now inFlight reclaims
    left.1 <:+ inFlight ∧ left.1.length + left.2 = inFlight.length + reclaims ∧
      left.2 ≤ maxStaleReclaims := by
  induction inFlight generalizing reclaims with
  | nil => exact ⟨suffix_refl _, rfl, h⟩
  | cons p rest ih =>
    rw [reclaim]
    split_ifs with hstale
    · obtain ⟨hrest, hlength, hle⟩ := ih (Nat.succ_le_of_lt hstale.1)
      exact ⟨hrest.trans (suffix_cons _ _), by rw [hlength, length_cons]; omega, hle⟩
    · exact ⟨suffix_refl _, rfl, h⟩

namespace Workers

open BlockingBreaker

variable {maxInFlight : ℕ} {w : Workers}

theorem held_recordSuccess (b : BlockingBreaker) (attempt : ℕ) :
    (b.recordSuccess attempt).inFlight.map Prod.fst = (b.inFlight.map Prod.fst).erase attempt := by
  rw [erase_eq_eraseP', eraseP_map]
  rfl

theorem Kept.success (h : Kept maxInFlight w) (attempt : ℕ) :
    Kept maxInFlight (w.call (.success attempt)) := by
  have hheld : (w.call (.success attempt)).held = w.held.erase attempt :=
    held_recordSuccess w.breaker attempt
  refine ⟨h.maxInFlight_eq, h.maxStaleReclaims_eq, hheld ▸ h.subperm.erase attempt, ?_,
    hheld ▸ (length_erase_le.trans h.length_held), h.reclaims_le⟩
  show (w.running.erase attempt).length ≤ _ + w.breaker.staleReclaims
  have hrunning := h.length_running
  rw [hheld, length_erase, length_erase]
  -- An attempt that gives up a slot was at work.
  split_ifs with hrun hslot hslot
  · omega
  · omega
  · exact absurd (h.subperm.subset hslot) hrun
  · exact hrunning

theorem Kept.beginAttempt (h : Kept maxInFlight w) (now : ℕ) :
    Kept maxInFlight (w.call (.beginAttempt now)) := by
  obtain ⟨hleft, hlength, hle⟩ := reclaim_spec w.breaker.staleAfter w.breaker.maxStaleReclaims now
    w.breaker.inFlight (h.maxStaleReclaims_eq ▸ h.reclaims_le)
  have hsub := (hleft.sublist.map Prod.fst).subperm.trans h.subperm
  have hrunning := h.length_running
  have hheld := h.length_held
  rw [held, length_map] at hrunning hheld
  rw [call, beginAttemptAt]
  split_ifs with htrip
  · exact h
  · dsimp only
    split_ifs with hroom hopen
    · refine ⟨h.maxInFlight_eq, h.maxStaleReclaims_eq, ?_, ?_, ?_, h.maxStaleReclaims_eq ▸ hle⟩
      all_goals simp only [held, map_append]
      · exact (perm_append_singleton _ _).subperm.trans ((subperm_cons _).mpr hsub)
      · simp only [length_cons, length_append, length_map]
        omega
      · rw [h.maxInFlight_eq] at hroom
        simpa using Nat.succ_le_of_lt hroom
    all_goals
      refine ⟨h.maxInFlight_eq, h.maxStaleReclaims_eq, hsub, ?_, ?_, h.maxStaleReclaims_eq ▸ hle⟩
      all_goals simp only [held, length_map]
      · omega
      · exact Nat.le_trans hleft.length_le hheld

theorem Kept.run (h : Kept maxInFlight w) (calls : List BreakerCall) :
    Kept maxInFlight (w.run calls) := by
  induction calls generalizing w with
  | nil => exact h
  | cons c calls ih =>
    cases c with
    | beginAttempt now => exact ih (h.beginAttempt now)
    | success attempt => exact ih (h.success attempt)

/-- All reclaims are used, and every slot is taken by one of these attempts. -/
def Wedged (stuck : List ℕ) (w : Workers) : Prop :=
  w.breaker.maxStaleReclaims ≤ w.breaker.staleReclaims ∧ w.held = stuck ∧
    w.breaker.maxInFlight ≤ stuck.length

/-- A wedged breaker refuses, and nothing changes by that. -/
theorem Wedged.beginAttemptAt {stuck} (h : Wedged stuck w) (now : ℕ) :
    w.breaker.beginAttemptAt now = (.refuseOpen, w.breaker) := by
  obtain ⟨hreclaims, rfl, hfull⟩ := h
  have hleft : reclaim w.breaker.staleAfter w.breaker.maxStaleReclaims now w.breaker.inFlight
      w.breaker.staleReclaims = (w.breaker.inFlight, w.breaker.staleReclaims) := by
    rcases w.breaker.inFlight with - | ⟨p, rest⟩
    · rfl
    · rw [reclaim, if_neg fun hstale ↦ absurd hstale.1 (Nat.not_lt.mpr hreclaims)]
  rw [held, length_map] at hfull
  rw [BlockingBreaker.beginAttemptAt, hleft]
  split_ifs with htrip
  · rfl
  · simp only [Nat.not_lt.mpr hfull, if_false, hreclaims, if_true]

theorem Wedged.run {stuck} (h : Wedged stuck w) (later : List BreakerCall)
    (hstuck : ∀ a ∈ stuck, .success a ∉ later) : Wedged stuck (w.run later) := by
  induction later generalizing w with
  | nil => exact h
  | cons c later ih =>
    refine ih ?_ fun a ha hc ↦ hstuck a ha (mem_cons_of_mem _ hc)
    cases c with
    | beginAttempt now =>
      rw [call, h.beginAttemptAt now]
      exact h
    | success attempt =>
      obtain ⟨hreclaims, rfl, hfull⟩ := h
      have hnot : attempt ∉ w.held := fun ha ↦ hstuck attempt ha mem_cons_self
      exact ⟨hreclaims, (held_recordSuccess w.breaker attempt).trans (erase_of_not_mem hnot), hfull⟩

/-- **The attempts at work are bounded**, by the slots and the reclaims, however the calls
interleave and whichever attempts complete late. Once the reclaims are used and the attempts that
hold the slots are stuck, every further attempt is refused. -/
theorem running_bounded (tripAfter maxInFlight : ℕ) (calls : List BreakerCall) :
    let w := (fresh tripAfter maxInFlight).run calls
    w.running.length ≤ maxInFlight + auditAppendMaxStaleReclaims ∧
      (w.breaker.staleReclaims = auditAppendMaxStaleReclaims → w.held.length = maxInFlight →
        ∀ later, (∀ a ∈ w.held, .success a ∉ later) → ∀ now,
          ((w.run later).breaker.beginAttemptAt now).1 = .refuseOpen) := by
  intro w
  have hfresh : Kept maxInFlight (fresh tripAfter maxInFlight) :=
    ⟨rfl, rfl, .refl _, le_rfl, Nat.zero_le _, Nat.zero_le _⟩
  have hkept : Kept maxInFlight w := hfresh.run calls
  refine ⟨?_, fun hreclaims hfull later hstuck now ↦ ?_⟩
  · have := hkept.length_running
    have := hkept.length_held
    have := hkept.reclaims_le
    omega
  · have hwedged : Wedged w.held w :=
      ⟨(hkept.maxStaleReclaims_eq.trans hreclaims.symm).le, rfl,
        (hkept.maxInFlight_eq.trans hfull.symm).le⟩
    rw [(hwedged.run later hstuck).beginAttemptAt now]

/-- One slot, and attempts that come as each before them turns stale. -/
def staleCalls : List BreakerCall :=
  [.beginAttempt 0, .beginAttempt 30000000000, .beginAttempt 60000000000, .beginAttempt 90000000000]

theorem running_bounded_stale :
    let w := (fresh 3 1).run staleCalls
    w.running = [3, 2, 1, 0] ∧ ∀ now,
      ((w.run [.success 0, .success 2]).breaker.beginAttemptAt now).1 = .refuseOpen :=
  ⟨by decide, fun now ↦ (running_bounded 3 1 staleCalls).2 (by decide) (by decide)
    [.success 0, .success 2] (by decide) now⟩

theorem tripAfter_run (calls : List BreakerCall) :
    (w.run calls).breaker.tripAfter = w.breaker.tripAfter := by
  induction calls generalizing w with
  | nil => rfl
  | cons c calls ih =>
    refine ih.trans ?_
    cases c with
    | beginAttempt now =>
      rw [call, beginAttemptAt]
      split_ifs
      · rfl
      · dsimp only
        split_ifs <;> rfl
    | success attempt => rfl

/-- Attempts that complete are no longer at work. -/
theorem running_completions {order : List ℕ} (h : order.Perm w.running) :
    (w.run (order.map .success)).running = [] := by
  induction order generalizing w with
  | nil => exact h.nil_eq.symm
  | cons a order ih => exact ih (erase_cons_head a order ▸ h.erase a)

/-- **The breaker opens again.** From every reachable state, however many attempts were reclaimed
and whatever completed late, once the attempts at work have completed, in any order, all slots are
free and the next attempt is admitted. -/
theorem admits_after_completions {tripAfter maxInFlight : ℕ} (htrip : tripAfter ≠ 0)
    (hmax : 0 < maxInFlight) (calls : List BreakerCall) {order : List ℕ}
    (horder : order.Perm ((fresh tripAfter maxInFlight).run calls).running) (now : ℕ) :
    let w := ((fresh tripAfter maxInFlight).run calls).run (order.map .success)
    w.held = [] ∧ ∃ attempt, (w.breaker.beginAttemptAt now).1 = .admitAttempt attempt := by
  intro w
  have hfresh : Kept maxInFlight (fresh tripAfter maxInFlight) :=
    ⟨rfl, rfl, .refl _, le_rfl, Nat.zero_le _, Nat.zero_le _⟩
  have hkept : Kept maxInFlight w := (hfresh.run calls).run _
  have hheld : w.held = [] := subperm_nil.mp (running_completions horder ▸ hkept.subperm)
  have hflight : w.breaker.inFlight = [] := map_eq_nil_iff.mp hheld
  have htrip' : w.breaker.tripAfter = tripAfter := (tripAfter_run _).trans (tripAfter_run _)
  refine ⟨hheld, w.breaker.nextAttemptId, ?_⟩
  rw [beginAttemptAt, if_neg (htrip' ▸ htrip), hflight]
  simp [reclaim, hkept.maxInFlight_eq, hmax]

theorem admits_after_completions_stale :
    let w := ((fresh 3 1).run staleCalls).run ([1, 3, 0, 2].map .success)
    w.held = [] ∧ ∃ attempt, (w.breaker.beginAttemptAt 0).1 = .admitAttempt attempt :=
  admits_after_completions (by decide) (by decide) staleCalls (by decide) 0

end Workers

end Maknae.Audit
