import Maknae.Kernel.Ceiling

/-!
# The live turn

The baseline operand has two shared cells: the installed snapshot and the enrolled principal. A
snapshot is installed at any time. A principal is installed only in the live turn, which a decision
shares for its length and an install has alone.

A batch reads the snapshot and then the principal, and decides all its requests on what it read. In
between another snapshot may be installed but no other principal, since the batch shares the turn.
So what it read was installed at once, at the moment at which it read the snapshot
(`batches_on_one_policy`).

The threads are interleaved step by step. A state keeps the pair that was installed after each step,
and a moment is a position in that list.
-/

namespace Maknae.Kernel

open Authz hiding Decided
open List Option Security StateGraph

/-! ### Decisions on one pair -/

/-- The decision of the baseline on one request. -/
def decideOn (snap : Snapshot) (principal : Principal) (req : Request) : Decided :=
  citedOn snap (decideLoadedCited snap.loaded principal req)

/-- The baseline with one snapshot and one principal. -/
def basicOn (snap : Snapshot) (principal : Principal) : CitedAuthorizer where
  toAuthorizer := candidate snap principal
  decideCited req := some (decideOn snap principal req)

/-- An operand that has answered a batch. -/
def answered (all : List Decided) : CitedAuthorizer where
  decideCitedAll _ := some all
  decideCited _ := none

/-- The decisions of a batch on one snapshot and one principal. -/
def decideAllOn (ceiling : CeilingAuthorizer) (snap : Snapshot) (principal : Principal)
    (reqs : List Request) : List Decided :=
  (⟨basicOn snap principal, ceiling⟩ : Composition).decideCitedAll reqs

theorem decideAllOn_eq (ceiling : CeilingAuthorizer) (snap : Snapshot) (principal : Principal)
    (reqs : List Request) :
    composeDecideCitedAll [answered (reqs.map (decideOn snap principal)), ceiling.operand] reqs =
      decideAllOn ceiling snap principal reqs := rfl

/-! ### Calls and turns -/

/-- A turn that is held alone: the lock it is of, and the thread that holds it. -/
structure LiveTurn where
  of : ℕ
  holder : ℕ

/-- How far a call of `decide_cited_all` is. -/
inductive CallPhase
  | waiting
  | sharing
  | loaded (snap : Snapshot)
  | deciding (snap : Snapshot) (principal : Principal) (decided : List Decided)
  | returned (decided : List Decided) (moment : ℕ)

/-- The call holds its share of the turn. -/
def CallPhase.Shares : CallPhase → Prop
  | .waiting | .returned _ _ => False
  | .sharing | .loaded _ | .deciding _ _ _ => True

instance (phase : CallPhase) : Decidable phase.Shares :=
  match phase with
  | .waiting | .returned _ _ => .isFalse id
  | .sharing | .loaded _ | .deciding _ _ _ => .isTrue trivial

structure Call where
  reqs : List Request
  /-- The moment at which the call was made. -/
  start : ℕ
  phase : CallPhase

/-- The decision point while it is live. -/
structure Live where
  ceiling : CeilingAuthorizer
  /-- The lock of its own turn. -/
  lock : ℕ
  snapshot : Snapshot
  principal : Principal
  /-- The thread that has the turn alone. -/
  turn : Option ℕ
  calls : List Call
  /-- What was installed at each moment. -/
  history : List (Snapshot × Principal)

namespace Live

def boot (ceiling : CeilingAuthorizer) (lock : ℕ) (snapshot : Snapshot) (principal : Principal) :
    Live where
  ceiling := ceiling
  lock := lock
  snapshot := snapshot
  principal := principal
  turn := none
  calls := []
  history := [(snapshot, principal)]

/-- A step of one thread. A step of a call names it by its number. -/
inductive Event
  | call (reqs : List Request)
  | share (i : ℕ)
  | readSnapshot (i : ℕ)
  | readPrincipal (i : ℕ)
  | decideNext (i : ℕ)
  | finish (i : ℕ)
  | install (snapshot : Snapshot)
  | tryTake (holder : ℕ)
  | installPrincipal (turn : LiveTurn) (principal : Principal)
  | release (holder : ℕ)

/-- One call moves on. -/
def advance (s : Live) (i : ℕ) (next : Call → Option CallPhase) : Option Live := do
  let c ← s.calls[i]?
  let phase ← next c
  return { s with calls := s.calls.set i { c with phase } }

def shareTurn (c : Call) : Option CallPhase :=
  match c.phase with
  | .waiting => some .sharing
  | _ => none

def readSnapshot (s : Live) (c : Call) : Option CallPhase :=
  match c.phase with
  | .sharing => some (.loaded s.snapshot)
  | _ => none

def readPrincipal (s : Live) (c : Call) : Option CallPhase :=
  match c.phase with
  | .loaded snap => some (.deciding snap s.principal [])
  | _ => none

def decideNext (c : Call) : Option CallPhase :=
  match c.phase with
  | .deciding snap principal decided =>
    c.reqs[decided.length]?.map fun req ↦
      .deciding snap principal (decided ++ [decideOn snap principal req])
  | _ => none

/-- The baseline has answered every request: fold in the ceiling, and let go of the turn. -/
def finish (s : Live) (c : Call) : Option CallPhase :=
  match c.phase with
  | .deciding _ _ decided =>
    if decided.length = c.reqs.length then
      some (.returned (composeDecideCitedAll [answered decided, s.ceiling.operand] c.reqs)
        s.history.length)
    else none
  | _ => none

def act (s : Live) : Event → Option Live
  | .call reqs => some { s with calls := s.calls ++ [⟨reqs, s.history.length, .waiting⟩] }
  | .share i => if s.turn = none then s.advance i shareTurn else none
  | .readSnapshot i => s.advance i s.readSnapshot
  | .readPrincipal i => s.advance i s.readPrincipal
  | .decideNext i => s.advance i decideNext
  | .finish i => s.advance i s.finish
  | .install snapshot => some { s with snapshot }
  | .tryTake holder =>
    if s.turn = none ∧ ∀ c ∈ s.calls, ¬c.phase.Shares then some { s with turn := some holder }
    else none
  -- a turn of another lock is refused, and one of this lock is the turn that is held
  | .installPrincipal turn principal =>
    if turn.of ≠ s.lock then some s
    else if s.turn = some turn.holder then some { s with principal }
    else none
  | .release holder => if s.turn = some holder then some { s with turn := none } else none

/-- Note what is installed. -/
def record (s : Live) : Live := { s with history := s.history ++ [(s.snapshot, s.principal)] }

def step (s : Live) (e : Event) : Option Live := (s.act e).map record

def run (s : Live) (events : List Event) : Option Live := events.foldlM step s

end Live

/-! ### What a call has read -/

/-- **What is kept of a call**: what it has read was installed at once since it was made, and is
still installed as far as it has yet to read it. -/
def Call.Ok (ceiling : CeilingAuthorizer) (history : List (Snapshot × Principal))
    (principal : Principal) (c : Call) : Prop :=
  match c.phase with
  | .waiting | .sharing => c.start < history.length
  | .loaded snap => ∃ t, c.start ≤ t ∧ history[t]? = some (snap, principal)
  | .deciding snap enrolled decided =>
    (∃ t, c.start ≤ t ∧ history[t]? = some (snap, enrolled)) ∧
      decided = (c.reqs.take decided.length).map (decideOn snap enrolled)
  | .returned decided moment =>
    ∃ t snap enrolled, c.start ≤ t ∧ t ≤ moment ∧ history[t]? = some (snap, enrolled) ∧
      decided = decideAllOn ceiling snap enrolled c.reqs

section Calls

variable {ceiling : CeilingAuthorizer} {history : List (Snapshot × Principal)}
  {principal principal' : Principal} {c : Call}

/-- Later moments change nothing of it, unless the principal changes during the call. -/
theorem Call.Ok.append (h : c.Ok ceiling history principal) (later : List (Snapshot × Principal))
    (hsame : c.phase.Shares → principal' = principal) :
    c.Ok ceiling (history ++ later) principal' := by
  have hmem : ∀ {t : ℕ} {pair : Snapshot × Principal}, history[t]? = some pair →
      (history ++ later)[t]? = some pair := fun hpair ↦ by
    rw [List.getElem?_append_left (List.getElem?_eq_some_iff.mp hpair).1]
    exact hpair
  obtain ⟨reqs, start, phase⟩ := c
  cases phase with
  | waiting | sharing => exact Nat.lt_of_lt_of_le h (length_append ▸ Nat.le_add_right _ _)
  | loaded snap =>
    obtain ⟨t, hstart, ht⟩ := h
    rw [hsame trivial]
    exact ⟨t, hstart, hmem ht⟩
  | deciding snap enrolled decided =>
    obtain ⟨⟨t, hstart, ht⟩, hdecided⟩ := h
    exact ⟨⟨t, hstart, hmem ht⟩, hdecided⟩
  | returned decided moment =>
    obtain ⟨t, snap, enrolled, hstart, hmoment, ht, hdecided⟩ := h
    exact ⟨t, snap, enrolled, hstart, hmoment, hmem ht, hdecided⟩

end Calls

namespace Live

/-- **The live decision point**: every call is sound, and none shares a turn that one thread has. -/
structure Ok (s : Live) : Prop where
  calls : ∀ c ∈ s.calls, c.Ok s.ceiling s.history s.principal
  alone : s.turn ≠ none → ∀ c ∈ s.calls, ¬c.phase.Shares

variable {s s' : Live} {e : Event}

variable {i : ℕ} {next : Call → Option CallPhase} {events : List Event}

theorem advance_eq_some (h : s.advance i next = some s') :
    ∃ c ∈ s.calls, ∃ phase, next c = some phase ∧
      s' = { s with calls := s.calls.set i { c with phase } } := by
  obtain ⟨c, hc, h⟩ := bind_eq_some_iff.mp h
  obtain ⟨phase, hphase, h⟩ := bind_eq_some_iff.mp h
  exact ⟨c, mem_of_getElem? hc, phase, hphase, (some.inj h).symm⟩

/-- One call moves on, and the others stay as they are. -/
theorem Ok.advance (h : s.Ok) (hadvance : s.advance i next = some s')
    (hnext : ∀ c ∈ s.calls, ∀ phase, next c = some phase →
    ({ c with phase } : Call).Ok s.ceiling (s.history ++ [(s.snapshot, s.principal)]) s.principal ∧
    (phase.Shares → s.turn = none ∨ c.phase.Shares)) :
    s'.record.Ok := by
  obtain ⟨c, hc, phase, hphase, rfl⟩ := advance_eq_some hadvance
  obtain ⟨hok, hshares⟩ := hnext c hc phase hphase
  refine ⟨fun c' hc' ↦ ?_, fun hturn c' hc' ↦ ?_⟩
  · rcases mem_or_eq_of_mem_set hc' with hc' | rfl
    · exact (h.calls c' hc').append _ fun _ ↦ rfl
    · exact hok
  · rcases mem_or_eq_of_mem_set hc' with hc' | rfl
    · exact h.alone hturn c' hc'
    · intro hphase
      rcases hshares hphase with hnone | hshare
      · exact hturn hnone
      · exact h.alone hturn c hc hshare

/-- The cells change, the calls do not. -/
theorem Ok.record (h : s.Ok) (hcalls : s'.calls = s.calls) (hceiling : s'.ceiling = s.ceiling)
    (hhistory : s'.history = s.history)
    (hprincipal : ∀ c ∈ s.calls, c.phase.Shares → s'.principal = s.principal)
    (halone : s'.turn ≠ none → ∀ c ∈ s.calls, ¬c.phase.Shares) : s'.record.Ok := by
  refine ⟨fun c hc ↦ ?_, fun hturn c hc ↦ ?_⟩
  · have hc : c ∈ s.calls := hcalls ▸ hc
    show c.Ok s'.ceiling (s'.history ++ [(s'.snapshot, s'.principal)]) s'.principal
    rw [hceiling, hhistory]
    exact (h.calls c hc).append _ (hprincipal c hc)
  · exact halone hturn c (hcalls ▸ hc)

section Phases

variable {c : Call} {phase : CallPhase}

theorem shareTurn_eq_some (h : shareTurn c = some phase) :
    c.phase = .waiting ∧ phase = .sharing := by
  unfold shareTurn at h
  split at h
  next heq => exact ⟨heq, (some.inj h).symm⟩
  next => exact nomatch h

theorem readSnapshot_eq_some (h : s.readSnapshot c = some phase) :
    c.phase = .sharing ∧ phase = .loaded s.snapshot := by
  unfold readSnapshot at h
  split at h
  next heq => exact ⟨heq, (some.inj h).symm⟩
  next => exact nomatch h

theorem readPrincipal_eq_some (h : s.readPrincipal c = some phase) :
    ∃ snap, c.phase = .loaded snap ∧ phase = .deciding snap s.principal [] := by
  unfold readPrincipal at h
  split at h
  next snap heq => exact ⟨snap, heq, (some.inj h).symm⟩
  next => exact nomatch h

theorem decideNext_eq_some (h : decideNext c = some phase) :
    ∃ snap enrolled decided req, c.phase = .deciding snap enrolled decided ∧
      c.reqs[decided.length]? = some req ∧
      phase = .deciding snap enrolled (decided ++ [decideOn snap enrolled req]) := by
  unfold decideNext at h
  split at h
  next snap enrolled decided heq =>
    obtain ⟨req, hreq, rfl⟩ := map_eq_some_iff.mp h
    exact ⟨snap, enrolled, decided, req, heq, hreq, rfl⟩
  next => exact nomatch h

theorem finish_eq_some (h : s.finish c = some phase) :
    ∃ snap enrolled decided, c.phase = .deciding snap enrolled decided ∧
      decided.length = c.reqs.length ∧
      phase = .returned (composeDecideCitedAll [answered decided, s.ceiling.operand] c.reqs)
        s.history.length := by
  unfold finish at h
  split at h
  next snap enrolled decided heq =>
    obtain ⟨hlength, h⟩ := ite_none_right_eq_some.mp h
    exact ⟨snap, enrolled, decided, heq, hlength, (some.inj h).symm⟩
  next => exact nomatch h

end Phases

/-- The moment at which the snapshot is read is the one at which the pair is installed. -/
theorem Ok.readSnapshot (h : s.Ok) (hact : s.advance i s.readSnapshot = some s') :
    s'.record.Ok := by
  refine h.advance hact fun c hc phase hphase ↦ ?_
  obtain ⟨hsharing, rfl⟩ := readSnapshot_eq_some hphase
  have hok := h.calls c hc
  rw [Call.Ok, hsharing] at hok
  refine ⟨⟨s.history.length, hok.le, getElem?_concat_length⟩, fun _ ↦ .inr ?_⟩
  rw [hsharing]
  trivial

theorem Ok.readPrincipal (h : s.Ok) (hact : s.advance i s.readPrincipal = some s') :
    s'.record.Ok := by
  refine h.advance hact fun c hc phase hphase ↦ ?_
  obtain ⟨snap, hloaded, rfl⟩ := readPrincipal_eq_some hphase
  have hok := (h.calls c hc).append [(s.snapshot, s.principal)] fun _ ↦ rfl
  rw [Call.Ok, hloaded] at hok
  refine ⟨⟨hok, rfl⟩, fun _ ↦ .inr ?_⟩
  rw [hloaded]
  trivial

theorem Ok.decideNext (h : s.Ok) (hact : s.advance i decideNext = some s') :
    s'.record.Ok := by
  refine h.advance hact fun c hc phase hphase ↦ ?_
  obtain ⟨snap, enrolled, decided, req, hdeciding, hreq, rfl⟩ := decideNext_eq_some hphase
  have hok := (h.calls c hc).append [(s.snapshot, s.principal)] fun _ ↦ rfl
  rw [Call.Ok, hdeciding] at hok
  refine ⟨⟨hok.1, ?_⟩, fun _ ↦ .inr ?_⟩
  · rw [length_append, length_singleton, take_add_one, hreq, map_append, ← hok.2]
    rfl
  · rw [hdeciding]
    trivial

theorem Ok.finish (h : s.Ok) (hact : s.advance i s.finish = some s') : s'.record.Ok := by
  refine h.advance hact fun c hc phase hphase ↦ ?_
  obtain ⟨snap, enrolled, decided, hdeciding, hlength, rfl⟩ := finish_eq_some hphase
  have hok := h.calls c hc
  rw [Call.Ok, hdeciding] at hok
  obtain ⟨⟨t, hstart, ht⟩, hdecided⟩ := hok
  have hlt := (List.getElem?_eq_some_iff.mp ht).1
  rw [hlength, take_length] at hdecided
  refine ⟨⟨t, snap, enrolled, hstart, hlt.le, ?_, ?_⟩, False.elim⟩
  · rw [getElem?_append_left hlt]
    exact ht
  · rw [hdecided]
    exact decideAllOn_eq s.ceiling snap enrolled c.reqs

/-- **Every step keeps the calls sound.** -/
theorem Ok.step (h : s.Ok) (hstep : s.step e = some s') : s'.Ok := by
  obtain ⟨s₁, hact, rfl⟩ := map_eq_some_iff.mp hstep
  cases e with
  | call reqs =>
    cases hact
    refine ⟨forall_mem_concat.mpr ⟨fun c hc ↦ (h.calls c hc).append _ fun _ ↦ rfl, ?_⟩,
      fun hturn ↦ forall_mem_concat.mpr ⟨h.alone hturn, id⟩⟩
    show s.history.length < (s.history ++ [(s.snapshot, s.principal)]).length
    rw [length_append]
    exact Nat.lt_succ_self _
  | share i =>
    obtain ⟨hturn, hact⟩ := ite_none_right_eq_some.mp hact
    refine h.advance hact fun c hc phase hphase ↦ ?_
    obtain ⟨hwaiting, rfl⟩ := shareTurn_eq_some hphase
    have hok := (h.calls c hc).append [(s.snapshot, s.principal)] fun _ ↦ rfl
    rw [Call.Ok, hwaiting] at hok
    exact ⟨hok, fun _ ↦ .inl hturn⟩
  | readSnapshot i => exact h.readSnapshot hact
  | readPrincipal i => exact h.readPrincipal hact
  | decideNext i => exact h.decideNext hact
  | finish i => exact h.finish hact
  | install snapshot =>
    cases hact
    exact h.record rfl rfl rfl (fun _ _ _ ↦ rfl) h.alone
  | tryTake holder =>
    obtain ⟨⟨-, halone⟩, hact⟩ := ite_none_right_eq_some.mp hact
    cases hact
    exact h.record rfl rfl rfl (fun _ _ _ ↦ rfl) fun _ ↦ halone
  | installPrincipal turn principal =>
    by_cases hforeign : turn.of ≠ s.lock
    · cases (if_pos hforeign).symm.trans hact
      exact h.record rfl rfl rfl (fun _ _ _ ↦ rfl) h.alone
    · obtain ⟨hturn, hact⟩ :=
        ite_none_right_eq_some.mp ((if_neg hforeign).symm.trans hact)
      cases hact
      -- whoever has the turn alone finds no call that shares it
      have halone := h.alone (hturn ▸ nofun)
      exact h.record rfl rfl rfl (fun c hc hshares ↦ absurd hshares (halone c hc)) h.alone
  | release holder =>
    obtain ⟨-, hact⟩ := ite_none_right_eq_some.mp hact
    cases hact
    exact h.record rfl rfl rfl (fun _ _ _ ↦ rfl) fun hturn ↦ absurd rfl hturn

/-! ### Runs -/

theorem run_concat :
    s.run (events ++ [e]) = (s.run events).bind fun s ↦ s.step e := by
  rw [run, foldlM_append]
  exact congrArg _ (funext fun s ↦ bind_pure (s.step e))

theorem Ok.run (h : s.Ok) (hrun : s.run events = some s') : s'.Ok := by
  induction events using reverseRecOn generalizing s' with
  | nil =>
    cases hrun
    exact h
  | append_singleton events e ih =>
    rw [run_concat] at hrun
    obtain ⟨s₁, hs₁, hstep⟩ := bind_eq_some_iff.mp hrun
    exact (ih hs₁).step hstep

/-- The principal changes only in a turn that one thread has. -/
theorem act_frame {s₁} (hact : s.act e = some s₁) :
    s₁.ceiling = s.ceiling ∧ s₁.history = s.history ∧
      (s₁.principal = s.principal ∨ s.turn ≠ none) := by
  have hadvance : ∀ {i : ℕ} {next : Call → Option CallPhase}, s.advance i next = some s₁ →
      s₁.ceiling = s.ceiling ∧ s₁.history = s.history ∧
        (s₁.principal = s.principal ∨ s.turn ≠ none) := fun hadvance ↦ by
    obtain ⟨c, -, phase, -, rfl⟩ := advance_eq_some hadvance
    exact ⟨rfl, rfl, .inl rfl⟩
  cases e with
  | call reqs =>
    cases hact
    exact ⟨rfl, rfl, .inl rfl⟩
  | share i => exact hadvance (ite_none_right_eq_some.mp hact).2
  | readSnapshot i | readPrincipal i | decideNext i | finish i => exact hadvance hact
  | install snapshot =>
    cases hact
    exact ⟨rfl, rfl, .inl rfl⟩
  | tryTake holder =>
    obtain rfl := some.inj (ite_none_right_eq_some.mp hact).2
    exact ⟨rfl, rfl, .inl rfl⟩
  | installPrincipal turn principal =>
    by_cases hforeign : turn.of ≠ s.lock
    · cases (if_pos hforeign).symm.trans hact
      exact ⟨rfl, rfl, .inl rfl⟩
    · obtain ⟨hturn, hact⟩ :=
        ite_none_right_eq_some.mp ((if_neg hforeign).symm.trans hact)
      cases hact
      exact ⟨rfl, rfl, .inr (hturn ▸ nofun)⟩
  | release holder =>
    obtain rfl := some.inj (ite_none_right_eq_some.mp hact).2
    exact ⟨rfl, rfl, .inl rfl⟩

/-- A step adds what is installed after it. -/
theorem step_frame (hstep : s.step e = some s') :
    s'.ceiling = s.ceiling ∧ s'.history = s.history ++ [(s'.snapshot, s'.principal)] ∧
      (s'.principal = s.principal ∨ s.turn ≠ none) := by
  obtain ⟨s₁, hact, rfl⟩ := map_eq_some_iff.mp hstep
  obtain ⟨hceiling, hhistory, hprincipal⟩ := act_frame hact
  refine ⟨hceiling, ?_, hprincipal⟩
  show s₁.history ++ [(s₁.snapshot, s₁.principal)] = s.history ++ [(s₁.snapshot, s₁.principal)]
  rw [hhistory]

/-- **No principal changes while a decision is in flight.** -/
theorem Ok.principal_step (h : s.Ok) (hstep : s.step e = some s')
    (hflight : ∃ c ∈ s.calls, c.phase.Shares) : s'.principal = s.principal := by
  obtain ⟨-, -, hsame | hturn⟩ := step_frame hstep
  · exact hsame
  · obtain ⟨c, hc, hshares⟩ := hflight
    exact absurd hshares (h.alone hturn c hc)

/-- The list of moments is that of the run: one state after each event. -/
theorem history_run (hs : s.history = [(s.snapshot, s.principal)]) (hrun : s.run events = some s') :
    s'.ceiling = s.ceiling ∧ s'.history.length = events.length + 1 ∧
      ∀ t pair, s'.history[t]? = some pair → ∃ sₜ, s.run (events.take t) = some sₜ ∧
        pair = (sₜ.snapshot, sₜ.principal) := by
  induction events using List.reverseRecOn generalizing s' with
  | nil =>
    cases hrun
    refine ⟨rfl, by rw [hs]; rfl, fun t pair hpair ↦ ?_⟩
    rw [hs] at hpair
    rw [take_nil]
    exact ⟨s, rfl, mem_singleton.mp (mem_of_getElem? hpair)⟩
  | append_singleton events e ih =>
    rw [run_concat] at hrun
    obtain ⟨s₁, hs₁, hstep⟩ := bind_eq_some_iff.mp hrun
    obtain ⟨hceiling, hlength, hmoments⟩ := ih hs₁
    obtain ⟨hceiling', hhistory, -⟩ := step_frame hstep
    refine ⟨hceiling'.trans hceiling, ?_, fun t pair hpair ↦ ?_⟩
    · rw [hhistory, length_append, length_append, hlength]
      rfl
    rw [hhistory] at hpair
    rcases lt_or_ge t s₁.history.length with hlt | hge
    · rw [getElem?_append_left hlt] at hpair
      rw [take_append_of_le_length (by omega)]
      exact hmoments t pair hpair
    · -- the last moment is the one after the whole run
      have ht : t = s₁.history.length := by
        have hlt := (List.getElem?_eq_some_iff.mp hpair).1
        rw [length_append, length_singleton] at hlt
        omega
      rw [ht, getElem?_concat_length] at hpair
      rw [take_of_length_le (by rw [length_append, length_singleton]; omega)]
      exact ⟨s', run_concat.trans hrun, (some.inj hpair).symm⟩

theorem ok_boot (ceiling : CeilingAuthorizer) (lock : ℕ) (snapshot : Snapshot)
    (principal : Principal) : (boot ceiling lock snapshot principal).Ok :=
  ⟨nofun, nofun⟩

end Live

open Live

/-- **Every batch is decided on one policy.** However the threads are interleaved, the decisions of
a call are those on the snapshot and the principal that were installed at one moment during the
call. No principal changes while a decision is in flight. -/
theorem batches_on_one_policy {ceiling : CeilingAuthorizer} {lock : ℕ} {snapshot : Snapshot}
    {principal : Principal} {events : List Event} {s : Live}
    (hrun : (boot ceiling lock snapshot principal).run events = some s) :
    (∀ c ∈ s.calls, ∀ decided moment, c.phase = .returned decided moment →
      ∃ t sₜ, c.start ≤ t ∧ t ≤ moment ∧
        (boot ceiling lock snapshot principal).run (events.take t) = some sₜ ∧
        decided = decideAllOn ceiling sₜ.snapshot sₜ.principal c.reqs) ∧
    ∀ e s', s.step e = some s' → (∃ c ∈ s.calls, c.phase.Shares) → s'.principal = s.principal := by
  have hok := (ok_boot ceiling lock snapshot principal).run hrun
  obtain ⟨hceiling, -, hmoments⟩ := history_run rfl hrun
  refine ⟨fun c hc decided moment hreturned ↦ ?_, fun e s' hstep ↦ hok.principal_step hstep⟩
  have hcall := hok.calls c hc
  rw [Call.Ok, hreturned] at hcall
  obtain ⟨t, snap, enrolled, hstart, hmoment, ht, hdecided⟩ := hcall
  obtain ⟨sₜ, hsₜ, hpair⟩ := hmoments t _ ht
  cases hpair
  rw [hceiling] at hdecided
  exact ⟨t, sₜ, hstart, hmoment, hsₜ, hdecided⟩

/-- A snapshot that grants nothing. -/
def emptySnapshot : Snapshot where
  loaded := {
    policy := ⟨[], [], [], []⟩
    roles := ⟨⟨.kernel, 0, 1, [], [], [], [], [], []⟩, false⟩
    actionGrants := ∅
    destinations := ∅
    subjects := ∅ }
  cite _ := none

/-- Another snapshot is installed, and another principal is kept waiting, while a batch of two
requests is decided. -/
def swapDuring : List Event :=
  [.call [markedRead "CONFIDENTIAL", markedRead "SECRET"], .share 0, .readSnapshot 0,
    .install { emptySnapshot with cite := fun _ ↦ some ⟨7, "roles/user", "authz"⟩ },
    .installPrincipal ⟨1, 5⟩ ⟨1002⟩, .readPrincipal 0, .decideNext 0, .decideNext 0, .finish 0,
    .tryTake 5, .installPrincipal ⟨0, 5⟩ ⟨1002⟩]

theorem batches_on_one_policy_swapDuring :
    ∃ s, (boot permissiveComposition.ceiling 0 emptySnapshot ⟨1001⟩).run swapDuring = some s ∧
      s.principal = ⟨1002⟩ ∧ ∃ c ∈ s.calls, ∃ decided, c.phase = .returned decided 9 ∧
        ∃ t sₜ, t ≤ 9 ∧ (boot permissiveComposition.ceiling 0 emptySnapshot ⟨1001⟩).run
          (swapDuring.take t) = some sₜ ∧
        decided = decideAllOn permissiveComposition.ceiling sₜ.snapshot sₜ.principal c.reqs := by
  obtain ⟨hcalls, -⟩ :=
    @batches_on_one_policy permissiveComposition.ceiling 0 emptySnapshot ⟨1001⟩ swapDuring _ rfl
  obtain ⟨t, sₜ, -, ht, hsₜ, hdecided⟩ := hcalls _ mem_cons_self _ _ rfl
  exact ⟨_, rfl, rfl, _, mem_cons_self, _, rfl, t, sₜ, ht, hsₜ, hdecided⟩

/-- A permit of the composition is one of the baseline, on the pair that the batch was decided on.
-/
theorem isPermit_of_decideAllOn {ceiling snap principal req d} {reqs : List Request} {i : ℕ}
    (hreq : reqs[i]? = some req) (hd : (decideAllOn ceiling snap principal reqs)[i]? = some d)
    (h : d.verdict.IsPermit) :
    (decideLoadedCited snap.loaded principal req).verdict.IsPermit := by
  obtain ⟨d₁, hd₁, hiff⟩ :=
    (⟨basicOn snap principal, ceiling⟩ : Composition).decideCitedAll_isPermit_iff hreq
  cases hd.symm.trans hd₁
  obtain ⟨⟨all, hall, -, d₂, hd₂, hpermit⟩, -⟩ := hiff.mp h
  obtain rfl : reqs.map (decideOn snap principal) = all := some.inj hall
  rw [getElem?_map, hreq] at hd₂
  cases hd₂
  exact hpermit.1

/-- **A revocation takes effect at once.** However the threads are interleaved, a call that is made
when a request is refused, and stays refused under all that is installed later, returns no permit
for it. So a subject that is contained by then is permitted nothing, unless the kernel contains it.
-/
theorem revocation_takes_effect {ceiling : CeilingAuthorizer} {lock : ℕ} {snapshot : Snapshot}
    {principal : Principal} {events : List Event} {s : Live}
    (hrun : (boot ceiling lock snapshot principal).run events = some s) {since : ℕ} {c : Call}
    (hc : c ∈ s.calls) (hsince : since ≤ c.start) {decided : List Decided} {moment i : ℕ}
    (hreturned : c.phase = .returned decided moment) {req : Request} (hreq : c.reqs[i]? = some req)
    {d : Decided} (hd : decided[i]? = some d) :
    let Installed := fun t sₜ ↦ since ≤ t ∧
      (boot ceiling lock snapshot principal).run (events.take t) = some sₜ
    ((∀ t sₜ, Installed t sₜ →
      ¬(decideLoadedCited sₜ.snapshot.loaded sₜ.principal req).verdict.IsPermit) →
        ¬d.verdict.IsPermit) ∧
    ∀ uid : UInt32, req.subject[subjectUid]? = some (.int uid.toNat) → ¬KernelContains req →
      (∀ t sₜ, Installed t sₜ →
        sₜ.snapshot.loaded.roles.roleFor uid sₜ.principal.uid = .role .adversary) →
          ¬d.verdict.IsPermit := by
  intro Installed
  have hcall := ((ok_boot ceiling lock snapshot principal).run hrun).calls c hc
  obtain ⟨-, -, hmoments⟩ := history_run rfl hrun
  rw [Call.Ok, hreturned] at hcall
  obtain ⟨t, snap, enrolled, hstart, -, ht, rfl⟩ := hcall
  obtain ⟨sₜ, hsₜ, hpair⟩ := hmoments t _ ht
  cases hpair
  have hinstalled : Installed t sₜ := ⟨hsince.trans hstart, hsₜ⟩
  refine ⟨fun hrefused h ↦ hrefused t sₜ hinstalled (isPermit_of_decideAllOn hreq hd h), ?_⟩
  intro uid huid hkernel hcontained h
  obtain ⟨uid', huid', hpermit⟩ :=
    isPermit_iff_exists_uid.mp (isPermit_of_decideAllOn hreq hd h)
  obtain rfl : uid' = uid := by
    have hint := AttrValue.int.inj (some.inj (huid'.symm.trans huid))
    exact UInt32.toNat_inj.mp (Int.ofNat_inj.mp hint)
  obtain hk | ⟨role, hrole, hresolved, -⟩ := decideUid_isPermit_iff.mp hpermit
  · exact hkernel hk
  · rw [hcontained t sₜ hinstalled] at hresolved
    exact mem_roles_iff.mp hrole (Resolution.role.inj hresolved).symm

/-- Everything may be read, and no bindings file names a role: the enrolled principal is admin. -/
def readingSnapshot : Snapshot :=
  { emptySnapshot with
    loaded := { emptySnapshot.loaded with
      policy := ⟨[.read (.compile .root "/**")], [], ["Read(/**)"], []⟩ } }

/-- The same with the subject of uid 1001 contained. -/
def containedSnapshot : Snapshot :=
  let subject : NodeRecord := ⟨⟨1⟩, .kernel, subjectKind, subjectKey 1001, "", ⟨.operator, 1⟩, 1, ∅⟩
  let role : NodeRecord := ⟨⟨2⟩, .kernel, roleKind, "adversary", "", ⟨.compiled, 0⟩, 0, ∅⟩
  let edge : EdgeRecord := ⟨⟨1⟩, .kernel, ⟨1⟩, ⟨2⟩, contained, "", ⟨.operator, 1⟩, 1, ∅⟩
  { readingSnapshot with
    loaded := { readingSnapshot.loaded with
      roles := ⟨⟨.kernel, 1, 1, [subject, role], [edge], [0, 1, 1], [0, 0, 1], [0],
        [(subjectKind, subject.key, 0), (roleKind, role.key, 1)]⟩, true⟩ } }

/-- A local read of marked content by uid 1001. -/
def ownRead : Request where
  subject := (∅ : Attributes).insert subjectUid (.int 1001)
  resource := ((∅ : Attributes).insert resourcePath (.str "/srv/report")).insert
    resourceClassification (.str "CONFIDENTIAL")
  action := "fs.read"
  context := ((∅ : Attributes).insert contextDacLane (.str "local")).insert contextFsOperation
    (.str "read")

/-- The read is decided, its subject is contained, and the read is decided again. -/
def containBetween : List Event :=
  [.call [ownRead], .share 0, .readSnapshot 0, .readPrincipal 0, .decideNext 0, .finish 0,
    .install containedSnapshot,
    .call [ownRead], .share 1, .readSnapshot 1, .readPrincipal 1, .decideNext 1, .finish 1]

theorem revocation_takes_effect_containBetween :
    ∃ s before after decided decided',
      (boot permissiveComposition.ceiling 0 readingSnapshot ⟨1001⟩).run containBetween = some s ∧
      s.calls = [⟨[ownRead], 1, .returned decided before⟩,
        ⟨[ownRead], 8, .returned decided' after⟩] ∧
      (∃ d, decided[0]? = some d ∧ d.verdict.IsPermit) ∧
      ∃ d, decided'[0]? = some d ∧ ¬d.verdict.IsPermit := by
  have hpermit : ((decideAllOn permissiveComposition.ceiling readingSnapshot ⟨1001⟩
      [ownRead])[0]?.any fun d ↦ decide d.verdict.IsPermit) = true := by decide +kernel
  have hcontained : containedSnapshot.loaded.roles.roleFor 1001 1001 = .role .adversary := by
    decide +kernel
  obtain ⟨d, hd, hpermit⟩ := (any_eq_true _ _).mp hpermit
  refine ⟨_, _, _, _, _, rfl, rfl, ⟨d, hd, of_decide_eq_true hpermit⟩, _, rfl, ?_⟩
  refine (@revocation_takes_effect permissiveComposition.ceiling 0 readingSnapshot ⟨1001⟩
    containBetween _ rfl 7 _ (mem_cons_of_mem _ mem_cons_self) (by decide) _ _ 0 rfl ownRead rfl _
      rfl).2 1001 (by decide) (fun h ↦ absurd h.1 (by decide)) ?_
  rintro t sₜ ⟨ht, hsₜ⟩
  obtain ⟨t, rfl⟩ := Nat.exists_eq_add_of_le' ht
  rcases t with _ | _ | _ | _ | _ | _ | _ | t
  all_goals
    cases hsₜ
    exact hcontained

end Maknae.Kernel
