import Maknae.Vault.Supervisor

/-!
# The loop of the credential supervisor

One loop renews the token of a plane and rotates its leaf. It sleeps until the earlier of two
deadlines, makes at most one attempt of each kind, and sleeps again. A failed attempt moves only its
own deadline. When there is no time left for another attempt the loop clears the identity and ends.

The loop is run against a clock that its sleeps follow exactly, with attempts that take no time: a
run is a sequence of seconds that pass while the loop sleeps and of wakes, and a wake brings the
answers that its attempts get. What the loop has attempted is noted in order.

The argument is an invariant of the sleeping loop (`Asleep`): it will wake before either credential
expires and at one of its two deadlines. It holds at the start and is kept by every second and every
wake, whatever the answers (`Safe.step`). A wake without a renewal leaves a later wake or ends the
loop (`Asleep.lt_wakeAt_wake`), and the token's expiry bounds how often that can happen
(`length_run_of_noRenewal`).

The leaf comes first in a wake, and a leaf that cannot be rotated in time ends the loop before a
renewal that is due at the same second (`renewal_not_attempted`).
-/

namespace Maknae.Vault

open List Option

/-- A leaf: the second of the wall clock at which it was issued, and its lifetime. -/
structure Leaf where
  issuedAt : ℕ
  ttlSecs : ℕ

/-- A token: the second of the loop's clock at which it was granted, and its lease. -/
structure Grant where
  grantedAt : ℕ
  leaseSecs : ℕ

def Grant.expiry (g : Grant) : ℕ := g.grantedAt + g.leaseSecs

inductive Operation
  | rotation
  | renewal
deriving DecidableEq, Repr

inductive AttemptResult
  | succeeded
  | retryAt (deadline : ℕ)
  | failedClosed

/-- An attempt at some second, and the second at which what it is about expires. -/
structure Attempt where
  operation : Operation
  time : ℕ
  expiry : ℕ
  result : AttemptResult

/-- The variables of the loop, and what it works on. -/
structure Supervisor where
  /-- The wall clock when the loop starts. -/
  epoch : ℕ
  /-- The seconds since then. -/
  clock : ℕ
  leaf : Leaf
  token : Grant
  /-- There is an identity to serve with. The loop ends as it clears it. -/
  identity : Bool
  tokenDeadline : ℕ
  tokenExpiresAt : ℕ
  tokenAttempt : ℕ
  leafBackoffUntil : Option ℕ
  leafAttempt : ℕ
  /-- The end of the sleep. -/
  wakeAt : ℕ
  attempts : List Attempt

namespace Supervisor

/-- The age of the leaf by the wall clock. -/
def leafAgeSecs (s : Supervisor) : ℕ := s.epoch + s.clock - s.leaf.issuedAt

/-- The expiry of the leaf by the loop's clock. -/
def leafExpiry (s : Supervisor) : ℕ := s.leaf.issuedAt + s.leaf.ttlSecs - s.epoch

def note (s : Supervisor) (operation : Operation) (expiry : ℕ) (result : AttemptResult) :
    Supervisor :=
  { s with attempts := s.attempts ++ [⟨operation, s.clock, expiry, result⟩] }

def expireNow (s : Supervisor) : Supervisor := { s with identity := false }

/-- The end of the backoff after a failed rotation, or else the rotation point of the leaf. -/
def leafDeadline (s : Supervisor) : ℕ :=
  s.leafBackoffUntil.getD (leafRotateDeadline s.clock s.leafAgeSecs s.leaf.ttlSecs)

/-- The top of the loop. -/
def sleep (s : Supervisor) : Supervisor :=
  let wake := nextWake s.clock s.tokenDeadline s.leafDeadline
  { s with wakeAt := s.clock + (wake - s.clock) }

/-- The loop as it is spawned with a token and a leaf. -/
def start (epoch lease : ℕ) (leaf : Leaf) : Supervisor :=
  let s : Supervisor := {
    epoch, leaf
    clock := 0
    token := ⟨0, lease⟩
    identity := true
    tokenDeadline := satAdd 64 0 (tokenRenewAfter lease)
    tokenExpiresAt := satAdd 64 0 lease
    tokenAttempt := 0
    leafBackoffUntil := none
    leafAttempt := 0
    wakeAt := 0
    attempts := [] }
  if lease = 0 then s.expireNow else s.sleep

/-! ### Leaf rotation -/

/-- Rotation is warranted, and any backoff has passed. -/
def RotationDue (s : Supervisor) : Prop :=
  (∀ d ∈ s.leafBackoffUntil, d ≤ s.clock) ∧ rotateNow s.leafAgeSecs s.leaf.ttlSecs = true

instance (s : Supervisor) : Decidable s.RotationDue := inferInstanceAs (Decidable (_ ∧ _))

def rotated (s : Supervisor) (ttl : ℕ) : Supervisor :=
  { s.note .rotation s.leafExpiry .succeeded with
    leaf := ⟨s.epoch + s.clock, ttl⟩
    leafBackoffUntil := none
    leafAttempt := 0 }

def notRotated (s : Supervisor) : Supervisor :=
  let leafAttempt := (s.leafAttempt + 1) % 2 ^ 32
  let remaining := s.leaf.ttlSecs - s.leafAgeSecs
  match retryDeadline s.clock (retryAction remaining 0 leafAttempt) with
  | some d =>
    { s.note .rotation s.leafExpiry (.retryAt d) with leafBackoffUntil := some d, leafAttempt }
  | none => ({ s.note .rotation s.leafExpiry .failedClosed with leafAttempt }).expireNow

/-- At most one rotation. The answer is the lifetime of the new leaf, if there is one. -/
def tryRotate (s : Supervisor) (answer : Option ℕ) : Supervisor :=
  if s.RotationDue then
    match answer with
    | some ttl => s.rotated ttl
    | none => s.notRotated
  else s

/-! ### Token renewal -/

def renewed (s : Supervisor) (lease : ℕ) : Supervisor :=
  { s.note .renewal s.token.expiry .succeeded with
    token := ⟨s.clock, lease⟩
    tokenAttempt := 0
    tokenDeadline := satAdd 64 s.clock (tokenRenewAfter lease)
    tokenExpiresAt := satAdd 64 s.clock lease }

def notRenewed (s : Supervisor) : Supervisor :=
  let tokenAttempt := (s.tokenAttempt + 1) % 2 ^ 32
  let remaining := s.tokenExpiresAt - s.clock
  match retryDeadline s.clock (retryAction remaining 0 tokenAttempt) with
  | some d => { s.note .renewal s.token.expiry (.retryAt d) with tokenDeadline := d, tokenAttempt }
  | none => ({ s.note .renewal s.token.expiry .failedClosed with tokenAttempt }).expireNow

/-- At most one renewal. The answer is the new lease, if there is one. -/
def tryRenew (s : Supervisor) (answer : Option ℕ) : Supervisor :=
  if s.tokenDeadline ≤ s.clock then
    match answer with
    | some lease =>
      if lease = 0 then (s.note .renewal s.token.expiry .failedClosed).expireNow
      else s.renewed lease
    | none => s.notRenewed
  else s

/-! ### Runs -/

/-- The loop from the end of a sleep to the next sleep. -/
def wake (s : Supervisor) (rotation renewal : Option ℕ) : Supervisor :=
  let s := s.tryRotate rotation
  if s.identity then
    let s := s.tryRenew renewal
    if s.identity then s.sleep else s
  else s

inductive Event
  | second
  | wake (rotation renewal : Option ℕ)

def step (s : Supervisor) : Event → Option Supervisor
  | .second =>
    if s.identity ∧ s.clock < s.wakeAt then some { s with clock := s.clock + 1 } else none
  | .wake rotation renewal =>
    if s.identity ∧ s.clock = s.wakeAt then some (s.wake rotation renewal) else none

def run (s : Supervisor) (events : List Event) : Option Supervisor := events.foldlM step s

/-- Leaves of at least three seconds, and no lease of one second. -/
def Event.Sound : Event → Prop
  | .second => True
  | .wake rotation renewal => (∀ ttl ∈ rotation, 3 ≤ ttl) ∧ ∀ lease ∈ renewal, lease = 0 ∨ 2 ≤ lease

/-- No renewal succeeds. -/
def Event.NoRenewal : Event → Prop
  | .second => True
  | .wake _ renewal => ∀ lease ∈ renewal, lease = 0

/-! ### What is kept -/

/-- The leaf has not expired, and a retry of its rotation comes in time. -/
structure LeafKept (s : Supervisor) : Prop where
  ttl : 3 ≤ s.leaf.ttlSecs
  issued : s.leaf.issuedAt ≤ s.epoch + s.clock
  fresh : s.epoch + s.clock < s.leaf.issuedAt + s.leaf.ttlSecs
  backoff : ∀ d ∈ s.leafBackoffUntil, s.clock ≤ d ∧
    s.epoch + d + 3 ≤ s.leaf.issuedAt + s.leaf.ttlSecs ∧ rotateAge s.leaf.ttlSecs ≤ s.leafAgeSecs

/-- The token is renewed before it expires. -/
structure TokenKept (s : Supervisor) : Prop where
  clock_le : s.clock ≤ s.tokenDeadline
  deadline_le : s.tokenDeadline ≤ maxUnsigned 64
  deadline_lt : s.tokenDeadline < s.token.expiry
  expires : s.tokenExpiresAt = min s.token.expiry (maxUnsigned 64)

/-- **The sleeping loop**: it wakes before either credential expires, and for one of them. -/
structure Asleep (s : Supervisor) : Prop where
  identity : s.identity = true
  leaf : s.LeafKept
  token : s.TokenKept
  clock_le : s.clock ≤ s.wakeAt
  wake_le : s.wakeAt ≤ s.tokenDeadline
  fresh : s.epoch + s.wakeAt < s.leaf.issuedAt + s.leaf.ttlSecs
  backoff : ∀ d ∈ s.leafBackoffUntil, s.wakeAt ≤ d
  cause : s.wakeAt = s.tokenDeadline ∨
    (∀ d ∈ s.leafBackoffUntil, d ≤ s.wakeAt) ∧
      rotateAge s.leaf.ttlSecs ≤ s.epoch + s.wakeAt - s.leaf.issuedAt

section Sleep

variable {s : Supervisor}

theorem LeafKept.ttl_pos (h : s.LeafKept) : 0 < s.leaf.ttlSecs :=
  Nat.lt_of_lt_of_le (by decide) h.ttl

theorem LeafKept.leafDeadline_of_none (h : s.LeafKept) (hnone : s.leafBackoffUntil = none) :
    s.leafDeadline = satAdd 64 s.clock (rotateAge s.leaf.ttlSecs - s.leafAgeSecs) := by
  rw [leafDeadline, hnone, getD_none, leafRotateDeadline, if_neg h.ttl_pos.ne']

theorem leafDeadline_of_some {d} (hsome : s.leafBackoffUntil = some d) : s.leafDeadline = d := by
  rw [leafDeadline, hsome, getD_some]

theorem LeafKept.clock_le_leafDeadline (h : s.LeafKept) (hclock : s.clock ≤ maxUnsigned 64) :
    s.clock ≤ s.leafDeadline := by
  cases hbackoff : s.leafBackoffUntil with
  | none =>
    rw [h.leafDeadline_of_none hbackoff]
    exact le_satAdd hclock
  | some d =>
    rw [leafDeadline_of_some hbackoff]
    exact (h.backoff d hbackoff).1

/-- The leaf is still valid at its deadline. -/
theorem LeafKept.fresh_leafDeadline (h : s.LeafKept) :
    s.epoch + s.leafDeadline < s.leaf.issuedAt + s.leaf.ttlSecs := by
  cases hbackoff : s.leafBackoffUntil with
  | none =>
    have hfresh := h.fresh
    have hage := rotateAge_lt h.ttl
    have hle : s.leafDeadline ≤ s.clock + (rotateAge s.leaf.ttlSecs - s.leafAgeSecs) := by
      rw [h.leafDeadline_of_none hbackoff]
      exact satAdd_le_add
    rw [leafAgeSecs] at hle
    omega
  | some d =>
    have hlate := (h.backoff d hbackoff).2.1
    rw [leafDeadline_of_some hbackoff]
    omega

/-- At its deadline the rotation is due. -/
theorem LeafKept.due_leafDeadline (h : s.LeafKept) (hlt : s.leafDeadline < maxUnsigned 64) :
    (∀ d ∈ s.leafBackoffUntil, d ≤ s.leafDeadline) ∧
      rotateAge s.leaf.ttlSecs ≤ s.epoch + s.leafDeadline - s.leaf.issuedAt := by
  cases hbackoff : s.leafBackoffUntil with
  | none =>
    refine ⟨nofun, ?_⟩
    have hissued := h.issued
    rw [h.leafDeadline_of_none hbackoff, satAdd] at hlt ⊢
    rw [leafAgeSecs] at hlt ⊢
    omega
  | some d =>
    obtain ⟨hclock, -, hage⟩ := h.backoff d hbackoff
    rw [leafDeadline_of_some hbackoff]
    refine ⟨fun d' hd' ↦ (some.inj hd').symm.le, ?_⟩
    rw [leafAgeSecs] at hage
    omega

/-- The sleep ends at the earlier deadline. -/
theorem wakeAt_sleep (hleaf : s.LeafKept) (htoken : s.TokenKept) :
    s.sleep.wakeAt = min s.tokenDeadline s.leafDeadline := by
  have hclock := htoken.clock_le
  have hdeadline := hleaf.clock_le_leafDeadline (hclock.trans htoken.deadline_le)
  show s.clock + (max (min s.tokenDeadline s.leafDeadline) s.clock - s.clock) = _
  omega

theorem asleep_sleep (hidentity : s.identity = true) (hleaf : s.LeafKept) (htoken : s.TokenKept) :
    s.sleep.Asleep := by
  have hwake := wakeAt_sleep hleaf htoken
  have hclock := htoken.clock_le
  have hdeadline := hleaf.clock_le_leafDeadline (hclock.trans htoken.deadline_le)
  have hfresh := hleaf.fresh_leafDeadline
  have hmax := htoken.deadline_le
  refine ⟨hidentity, ⟨hleaf.ttl, hleaf.issued, hleaf.fresh, hleaf.backoff⟩,
    ⟨hclock, hmax, htoken.deadline_lt, htoken.expires⟩, ?_, ?_, ?_, fun d hd ↦ ?_, ?_⟩
  · show s.clock ≤ s.sleep.wakeAt
    omega
  · show s.sleep.wakeAt ≤ s.tokenDeadline
    omega
  · show s.epoch + s.sleep.wakeAt < s.leaf.issuedAt + s.leaf.ttlSecs
    omega
  · have hd : s.leafDeadline = d := leafDeadline_of_some hd
    omega
  · rcases le_or_gt s.tokenDeadline s.leafDeadline with hle | hlt
    · exact .inl (hwake.trans (min_eq_left hle))
    · refine .inr ?_
      rw [hwake, min_eq_right hlt.le]
      exact hleaf.due_leafDeadline (hlt.trans_le hmax)

end Sleep

section Seconds

variable {s : Supervisor}

theorem Asleep.second (h : s.Asleep) (hlt : s.clock < s.wakeAt) :
    ({ s with clock := s.clock + 1 } : Supervisor).Asleep := by
  have hissued := h.leaf.issued
  have hfresh := h.fresh
  have hwake := h.wake_le
  refine ⟨h.identity, ⟨h.leaf.ttl, ?_, ?_, fun d hd ↦ ⟨?_, (h.leaf.backoff d hd).2.1, ?_⟩⟩,
    ⟨?_, h.token.deadline_le, h.token.deadline_lt, h.token.expires⟩, hlt, hwake, hfresh, h.backoff,
    h.cause⟩
  · show s.leaf.issuedAt ≤ s.epoch + (s.clock + 1)
    omega
  · show s.epoch + (s.clock + 1) < s.leaf.issuedAt + s.leaf.ttlSecs
    omega
  · exact hlt.trans_le (h.backoff d hd)
  · have hage := (h.leaf.backoff d hd).2.2
    rw [leafAgeSecs] at hage
    show rotateAge s.leaf.ttlSecs ≤ s.epoch + (s.clock + 1) - s.leaf.issuedAt
    omega
  · show s.clock + 1 ≤ s.tokenDeadline
    omega

end Seconds

/-! ### One attempt of each kind -/

/-- Every retry was scheduled three seconds before the expiry that it raced. -/
def RetriesInTime (s : Supervisor) : Prop :=
  ∀ a ∈ s.attempts, ∀ d, a.result = .retryAt d → d + 3 ≤ a.expiry

section Rotation

variable {s : Supervisor} {answer : Option ℕ}

/-- What a rotation does to the loop. -/
theorem tryRotate_cases (s : Supervisor) (answer : Option ℕ) :
    (¬s.RotationDue ∧ s.tryRotate answer = s) ∨
    s.RotationDue ∧ ((∃ ttl ∈ answer, s.tryRotate answer = s.rotated ttl) ∨
      (∃ n d, retryDeadline s.clock (retryAction (s.leaf.ttlSecs - s.leafAgeSecs) 0 n) = some d ∧
        s.tryRotate answer = { s.note .rotation s.leafExpiry (.retryAt d) with
          leafBackoffUntil := some d, leafAttempt := n }) ∨
      ∃ n, s.tryRotate answer =
        ({ s.note .rotation s.leafExpiry .failedClosed with leafAttempt := n }).expireNow) := by
  by_cases hdue : s.RotationDue
  · refine .inr ⟨hdue, ?_⟩
    cases answer with
    | none =>
      rw [tryRotate, if_pos hdue, notRotated]
      split
      next d hd => exact .inr (.inl ⟨_, d, hd, rfl⟩)
      next => exact .inr (.inr ⟨_, rfl⟩)
    | some ttl => exact .inl ⟨ttl, rfl, if_pos hdue⟩
  · exact .inl ⟨hdue, if_neg hdue⟩

/-- A rotation leaves the token and the clock alone. -/
theorem tryRotate_frame (s : Supervisor) (answer : Option ℕ) :
    (s.tryRotate answer).clock = s.clock ∧ (s.tryRotate answer).token = s.token ∧
      (s.tryRotate answer).tokenDeadline = s.tokenDeadline ∧
      (s.tryRotate answer).tokenExpiresAt = s.tokenExpiresAt := by
  obtain ⟨-, heq⟩ | ⟨-, ⟨ttl, -, heq⟩ | ⟨n, d, -, heq⟩ | ⟨n, heq⟩⟩ := tryRotate_cases s answer
  all_goals
    rw [heq]
    exact ⟨rfl, rfl, rfl, rfl⟩

theorem TokenKept.tryRotate (h : s.TokenKept) (answer : Option ℕ) :
    (s.tryRotate answer).TokenKept := by
  obtain ⟨hclock, htoken, hdeadline, hexpires⟩ := tryRotate_frame s answer
  refine ⟨?_, ?_, ?_, ?_⟩
  · rw [hclock, hdeadline]
    exact h.clock_le
  · rw [hdeadline]
    exact h.deadline_le
  · rw [hdeadline, htoken]
    exact h.deadline_lt
  · rw [hexpires, htoken]
    exact h.expires

/-- A leaf whose rotation is not due has a later deadline. -/
theorem LeafKept.lt_leafDeadline (h : s.LeafKept) (hdue : ¬s.RotationDue)
    (hclock : s.clock < maxUnsigned 64) : s.clock < s.leafDeadline := by
  rw [RotationDue, rotateNow_iff h.ttl_pos, not_and_or] at hdue
  cases hbackoff : s.leafBackoffUntil with
  | none =>
    rw [hbackoff] at hdue
    have hage := hdue.resolve_left (fun hd ↦ hd nofun)
    rw [h.leafDeadline_of_none hbackoff]
    exact lt_satAdd hclock (by omega)
  | some d =>
    have hlate := hdue.resolve_right (fun hage ↦ hage (h.backoff d hbackoff).2.2)
    rw [leafDeadline_of_some hbackoff]
    by_contra hle
    refine hlate fun d' hd' ↦ ?_
    cases hbackoff.symm.trans hd'
    omega

theorem leafKept_rotated {ttl} (httl : 3 ≤ ttl) : (s.rotated ttl).LeafKept := by
  refine ⟨httl, le_rfl, ?_, nofun⟩
  show s.epoch + s.clock < s.epoch + s.clock + ttl
  omega

/-- **A rotation keeps the leaf**, unless the loop ends, and leaves nothing to do this second. -/
theorem LeafKept.tryRotate (h : s.LeafKept) (hclock : s.clock ≤ maxUnsigned 64)
    (hanswer : ∀ ttl ∈ answer, 3 ≤ ttl) (hidentity : (s.tryRotate answer).identity = true) :
    (s.tryRotate answer).LeafKept ∧
      (s.clock < maxUnsigned 64 → s.clock < (s.tryRotate answer).leafDeadline) := by
  obtain ⟨hdue, heq⟩ | ⟨hdue, ⟨ttl, hmem, heq⟩ | ⟨n, d, hretry, heq⟩ | ⟨n, heq⟩⟩ :=
    tryRotate_cases s answer
  · rw [heq]
    exact ⟨h, h.lt_leafDeadline hdue⟩
  · have hnew := leafKept_rotated (s := s) (hanswer ttl hmem)
    rw [heq]
    refine ⟨hnew, fun hlt ↦ ?_⟩
    -- the new leaf has age zero
    have hpos : 0 < rotateAge ttl := rotateAge_pos hnew.ttl_pos
    rw [hnew.leafDeadline_of_none rfl]
    refine lt_satAdd hlt ?_
    show 0 < rotateAge ttl - (s.epoch + s.clock - (s.epoch + s.clock))
    omega
  · obtain ⟨hlate, -, hlt, hle⟩ := retryDeadline_eq_some hretry
    have hissued := h.issued
    have hfresh := h.fresh
    have hage := (rotateNow_iff h.ttl_pos).mp hdue.2
    rw [heq]
    refine ⟨⟨h.ttl, hissued, hfresh, fun d' hd' ↦ ?_⟩, fun hmax ↦ ?_⟩
    · obtain rfl : d = d' := some.inj hd'
      rw [leafAgeSecs] at hlate
      refine ⟨hle hclock, ?_, hage⟩
      show s.epoch + d + 3 ≤ s.leaf.issuedAt + s.leaf.ttlSecs
      omega
    · rw [leafDeadline_of_some rfl]
      exact hlt hmax
  · rw [heq] at hidentity
    exact nomatch hidentity

theorem RetriesInTime.note (h : s.RetriesInTime) {operation} {expiry}
    {result} (hresult : ∀ d, result = .retryAt d → d + 3 ≤ expiry) :
    (s.note operation expiry result).RetriesInTime :=
  forall_mem_append.mpr ⟨h, forall_mem_singleton.mpr hresult⟩

theorem RetriesInTime.note_retryAt (h : s.RetriesInTime) {operation} {d expiry}
    (hd : d + 3 ≤ expiry) : (s.note operation expiry (.retryAt d)).RetriesInTime :=
  h.note fun _ heq ↦ AttemptResult.retryAt.inj heq ▸ hd

theorem RetriesInTime.tryRotate (h : s.RetriesInTime) (hleaf : s.LeafKept) (answer : Option ℕ) :
    (s.tryRotate answer).RetriesInTime := by
  obtain ⟨-, heq⟩ | ⟨-, ⟨ttl, -, heq⟩ | ⟨n, d, hretry, heq⟩ | ⟨n, heq⟩⟩ :=
    tryRotate_cases s answer <;> rw [heq]
  · exact h
  · exact h.note nofun
  · obtain ⟨hlate, -⟩ := retryDeadline_eq_some hretry
    have hfresh := hleaf.fresh
    rw [leafAgeSecs] at hlate
    refine h.note_retryAt ?_
    rw [leafExpiry]
    omega
  · exact h.note nofun

/-- A rotation that is due is attempted, and only a failed one ends the loop. -/
theorem attempts_tryRotate (s : Supervisor) (answer : Option ℕ) :
    (¬s.RotationDue ∧ s.tryRotate answer = s) ∨
    ∃ a : Attempt, (s.tryRotate answer).attempts = s.attempts ++ [a] ∧ a.operation = .rotation ∧
      ((s.tryRotate answer).identity = s.identity ∨ a.result = .failedClosed) := by
  obtain ⟨hdue, heq⟩ | ⟨-, ⟨ttl, -, heq⟩ | ⟨n, d, -, heq⟩ | ⟨n, heq⟩⟩ :=
    tryRotate_cases s answer <;> rw [heq]
  · exact .inl ⟨hdue, rfl⟩
  · exact .inr ⟨_, rfl, rfl, .inl rfl⟩
  · exact .inr ⟨_, rfl, rfl, .inl rfl⟩
  · exact .inr ⟨_, rfl, rfl, .inr rfl⟩

end Rotation

section Renewal

variable {s : Supervisor} {answer : Option ℕ}

/-- What a renewal does to the loop. A lease of no time ends it as a failure does. -/
theorem tryRenew_cases (s : Supervisor) (answer : Option ℕ) :
    (s.clock < s.tokenDeadline ∧ s.tryRenew answer = s) ∨
    s.tokenDeadline ≤ s.clock ∧
      ((∃ lease ∈ answer, lease ≠ 0 ∧ s.tryRenew answer = s.renewed lease) ∨
      (∃ n d, retryDeadline s.clock (retryAction (s.tokenExpiresAt - s.clock) 0 n) = some d ∧
        s.tryRenew answer = { s.note .renewal s.token.expiry (.retryAt d) with
          tokenDeadline := d, tokenAttempt := n }) ∨
      ∃ n, s.tryRenew answer =
        ({ s.note .renewal s.token.expiry .failedClosed with tokenAttempt := n }).expireNow) := by
  rcases lt_or_ge s.clock s.tokenDeadline with hlt | hdue
  · exact .inl ⟨hlt, if_neg hlt.not_ge⟩
  refine .inr ⟨hdue, ?_⟩
  cases answer with
  | none =>
    rw [tryRenew, if_pos hdue, notRenewed]
    split
    next d hd => exact .inr (.inl ⟨_, d, hd, rfl⟩)
    next => exact .inr (.inr ⟨_, rfl⟩)
  | some lease =>
    by_cases hzero : lease = 0
    · exact .inr (.inr ⟨_, (if_pos hdue).trans (if_pos hzero)⟩)
    · exact .inl ⟨lease, rfl, hzero, (if_pos hdue).trans (if_neg hzero)⟩

/-- A renewal leaves the leaf and the clock alone. -/
theorem tryRenew_frame (s : Supervisor) (answer : Option ℕ) :
    (s.tryRenew answer).epoch = s.epoch ∧ (s.tryRenew answer).clock = s.clock ∧
      (s.tryRenew answer).leaf = s.leaf ∧
      (s.tryRenew answer).leafBackoffUntil = s.leafBackoffUntil := by
  obtain ⟨-, heq⟩ | ⟨-, ⟨lease, -, -, heq⟩ | ⟨n, d, -, heq⟩ | ⟨n, heq⟩⟩ := tryRenew_cases s answer
  all_goals
    rw [heq]
    exact ⟨rfl, rfl, rfl, rfl⟩

theorem leafAgeSecs_tryRenew (s : Supervisor) (answer : Option ℕ) :
    (s.tryRenew answer).leafAgeSecs = s.leafAgeSecs := by
  obtain ⟨hepoch, hclock, hleaf, -⟩ := tryRenew_frame s answer
  rw [leafAgeSecs, hepoch, hclock, hleaf, leafAgeSecs]

theorem leafDeadline_tryRenew (s : Supervisor) (answer : Option ℕ) :
    (s.tryRenew answer).leafDeadline = s.leafDeadline := by
  obtain ⟨-, hclock, hleaf, hbackoff⟩ := tryRenew_frame s answer
  rw [leafDeadline, leafAgeSecs_tryRenew, hclock, hleaf, hbackoff, leafDeadline]

theorem LeafKept.tryRenew (h : s.LeafKept) (answer : Option ℕ) : (s.tryRenew answer).LeafKept := by
  obtain ⟨hepoch, hclock, hleaf, hbackoff⟩ := tryRenew_frame s answer
  refine ⟨?_, ?_, ?_, ?_⟩
  · rw [hleaf]
    exact h.ttl
  · rw [hepoch, hclock, hleaf]
    exact h.issued
  · rw [hepoch, hclock, hleaf]
    exact h.fresh
  · rw [hepoch, hclock, hleaf, hbackoff, leafAgeSecs_tryRenew]
    exact h.backoff

theorem TokenKept.clock_le_expiresAt (h : s.TokenKept) : s.clock ≤ s.tokenExpiresAt := by
  have hclock := h.clock_le
  have hmax := h.deadline_le
  have hexpiry := h.deadline_lt
  rw [h.expires]
  omega

/-- **A renewal keeps the token**, unless the loop ends, and leaves nothing to do this second. -/
theorem TokenKept.tryRenew (h : s.TokenKept) (hanswer : ∀ lease ∈ answer, lease = 0 ∨ 2 ≤ lease)
    (hidentity : (s.tryRenew answer).identity = true) :
    (s.tryRenew answer).TokenKept ∧
      (s.clock < maxUnsigned 64 → s.clock < (s.tryRenew answer).tokenDeadline) := by
  have hclock := h.clock_le.trans h.deadline_le
  obtain ⟨hlt, heq⟩ | ⟨-, ⟨lease, hmem, hzero, heq⟩ | ⟨n, d, hretry, heq⟩ | ⟨n, heq⟩⟩ :=
    tryRenew_cases s answer
  · rw [heq]
    exact ⟨h, fun _ ↦ hlt⟩
  · have hlease := (hanswer lease hmem).resolve_left hzero
    have hbefore := tokenRenewAfter_lt hlease
    have hle : satAdd 64 s.clock (tokenRenewAfter lease) ≤ s.clock + tokenRenewAfter lease :=
      satAdd_le_add
    rw [heq]
    refine ⟨⟨le_satAdd hclock, satAdd_le_max, ?_, rfl⟩,
      fun hlt ↦ lt_satAdd hlt (tokenRenewAfter_pos lease)⟩
    show satAdd 64 s.clock (tokenRenewAfter lease) < s.clock + lease
    omega
  · obtain ⟨hlate, hmax, hlt, hle⟩ := retryDeadline_eq_some hretry
    have hexpires := h.expires
    rw [heq]
    refine ⟨⟨hle hclock, hmax, ?_, hexpires⟩, hlt⟩
    show d < s.token.expiry
    omega
  · rw [heq] at hidentity
    exact nomatch hidentity

theorem RetriesInTime.tryRenew (h : s.RetriesInTime) (htoken : s.TokenKept) (answer : Option ℕ) :
    (s.tryRenew answer).RetriesInTime := by
  obtain ⟨-, heq⟩ | ⟨-, ⟨lease, -, -, heq⟩ | ⟨n, d, hretry, heq⟩ | ⟨n, heq⟩⟩ :=
    tryRenew_cases s answer <;> rw [heq]
  · exact h
  · exact h.note nofun
  · obtain ⟨hlate, -⟩ := retryDeadline_eq_some hretry
    have hexpiresAt := htoken.clock_le_expiresAt
    have hexpires := htoken.expires
    exact h.note_retryAt (by omega)
  · exact h.note nofun

/-- A renewal that is due is attempted. -/
theorem attempts_tryRenew (s : Supervisor) (answer : Option ℕ) :
    (s.clock < s.tokenDeadline ∧ s.tryRenew answer = s) ∨
    ∃ a : Attempt, (s.tryRenew answer).attempts = s.attempts ++ [a] ∧ a.operation = .renewal ∧
      a.time = s.clock := by
  obtain ⟨hlt, heq⟩ | ⟨-, ⟨lease, -, -, heq⟩ | ⟨n, d, -, heq⟩ | ⟨n, heq⟩⟩ :=
    tryRenew_cases s answer <;> rw [heq]
  · exact .inl ⟨hlt, rfl⟩
  all_goals exact .inr ⟨_, rfl, rfl, rfl⟩

/-- Without a success the token stays as it is, and the loop ends when its clock does. -/
theorem tryRenew_of_noRenewal (h : s.TokenKept) (hanswer : ∀ lease ∈ answer, lease = 0)
    (hidentity : (s.tryRenew answer).identity = true) :
    (s.tryRenew answer).token = s.token ∧ s.clock < maxUnsigned 64 := by
  have hmax := h.deadline_le
  obtain ⟨hlt, heq⟩ | ⟨hdue, ⟨lease, hmem, hzero, -⟩ | ⟨n, d, hretry, heq⟩ | ⟨n, heq⟩⟩ :=
    tryRenew_cases s answer
  · rw [heq]
    exact ⟨rfl, hlt.trans_le hmax⟩
  · exact absurd (hanswer lease hmem) hzero
  · obtain ⟨hlate, hle, -, hnow⟩ := retryDeadline_eq_some hretry
    have hclock := hnow (h.clock_le.trans hmax)
    have hexpires := h.expires
    rw [heq]
    refine ⟨rfl, ?_⟩
    omega
  · rw [heq] at hidentity
    exact nomatch hidentity

end Renewal

/-! ### Wakes -/

section Wakes

variable {s : Supervisor} {rotation renewal : Option ℕ}

/-- A wake that does not end the loop, in its parts. -/
theorem wake_of_identity (h : (s.wake rotation renewal).identity = true) :
    (s.tryRotate rotation).identity = true ∧
      ((s.tryRotate rotation).tryRenew renewal).identity = true ∧
      s.wake rotation renewal = ((s.tryRotate rotation).tryRenew renewal).sleep := by
  rw [wake] at h ⊢
  dsimp only at h ⊢
  split_ifs at h ⊢ with hrotate hrenew
  · exact ⟨hrotate, hrenew, rfl⟩
  · exact absurd h hrenew
  · exact absurd h hrotate

theorem attempts_wake (s : Supervisor) (rotation renewal : Option ℕ) :
    (s.wake rotation renewal).attempts = if (s.tryRotate rotation).identity then
      ((s.tryRotate rotation).tryRenew renewal).attempts else (s.tryRotate rotation).attempts := by
  rw [wake]
  dsimp only
  split_ifs <;> rfl

/-- **A wake keeps both credentials**, unless it ends the loop. -/
theorem Asleep.wake (h : s.Asleep) (hsound : Event.Sound (.wake rotation renewal))
    (hidentity : (s.wake rotation renewal).identity = true) : (s.wake rotation renewal).Asleep := by
  obtain ⟨hrotate, hrenew, heq⟩ := wake_of_identity hidentity
  obtain ⟨hleaf, -⟩ :=
    h.leaf.tryRotate (h.token.clock_le.trans h.token.deadline_le) hsound.1 hrotate
  obtain ⟨htoken, -⟩ := (h.token.tryRotate rotation).tryRenew hsound.2 hrenew
  rw [heq]
  exact asleep_sleep hrenew (hleaf.tryRenew renewal) htoken

/-- **A wake without a renewal leaves a later wake**, unless it ends the loop. -/
theorem Asleep.lt_wakeAt_wake (h : s.Asleep) (hsound : Event.Sound (.wake rotation renewal))
    (hno : Event.NoRenewal (.wake rotation renewal))
    (hidentity : (s.wake rotation renewal).identity = true) :
    (s.wake rotation renewal).clock = s.clock ∧ (s.wake rotation renewal).token = s.token ∧
      s.clock < (s.wake rotation renewal).wakeAt := by
  obtain ⟨hrotate, hrenew, heq⟩ := wake_of_identity hidentity
  obtain ⟨hclock, htoken, -, -⟩ := tryRotate_frame s rotation
  obtain ⟨-, hclock', -, -⟩ := tryRenew_frame (s.tryRotate rotation) renewal
  obtain ⟨hleafKept, hleafLater⟩ :=
    h.leaf.tryRotate (h.token.clock_le.trans h.token.deadline_le) hsound.1 hrotate
  have htokenKept := h.token.tryRotate rotation
  obtain ⟨htokenKept', htokenLater⟩ := htokenKept.tryRenew hsound.2 hrenew
  obtain ⟨htoken', hmax⟩ := tryRenew_of_noRenewal htokenKept hno hrenew
  rw [hclock] at hclock' htokenLater hmax
  rw [heq, wakeAt_sleep (hleafKept.tryRenew renewal) htokenKept', leafDeadline_tryRenew]
  exact ⟨hclock', htoken'.trans htoken, lt_min (htokenLater hmax) (hleafLater hmax)⟩

theorem RetriesInTime.wake (h : s.RetriesInTime) (hasleep : s.Asleep)
    (rotation renewal : Option ℕ) : (s.wake rotation renewal).RetriesInTime := by
  have hrotate := h.tryRotate hasleep.leaf rotation
  have hrenew := hrotate.tryRenew (hasleep.token.tryRotate rotation) renewal
  rw [RetriesInTime, attempts_wake]
  split_ifs
  · exact hrenew
  · exact hrotate

/-- **A renewal that is due is attempted at once**, unless the leaf has just ended the loop. -/
theorem Asleep.renewal_attempted (h : s.Asleep) (hdue : s.clock = s.tokenDeadline)
    (rotation renewal : Option ℕ) :
    ∃ new, (s.wake rotation renewal).attempts = s.attempts ++ new ∧
      ((∃ a ∈ new, a.operation = .renewal ∧ a.time = s.clock) ∨
        (s.wake rotation renewal).identity = false ∧
          ∃ a, new = [a] ∧ a.operation = .rotation ∧ a.result = .failedClosed) := by
  obtain ⟨hclock, -, hdeadline, -⟩ := tryRotate_frame s rotation
  rw [attempts_wake]
  split_ifs with hrotate
  · obtain ⟨hlt, -⟩ | ⟨a, ha, hoperation, htime⟩ := attempts_tryRenew (s.tryRotate rotation) renewal
    · rw [hclock, hdeadline] at hlt
      exact absurd hdue hlt.ne
    · rw [hclock] at htime
      obtain ⟨-, heq⟩ | ⟨b, hb, -⟩ := attempts_tryRotate s rotation
      · rw [ha, heq]
        exact ⟨[a], rfl, .inl ⟨a, mem_singleton_self a, hoperation, htime⟩⟩
      · rw [ha, hb, append_assoc]
        exact ⟨[b] ++ [a], rfl, .inl ⟨a, mem_append_right _ (mem_singleton_self a),
          hoperation, htime⟩⟩
  · obtain ⟨-, heq⟩ | ⟨b, hb, hoperation, hidentity⟩ := attempts_tryRotate s rotation
    · rw [heq] at hrotate
      exact absurd h.identity hrotate
    · have hfailed := hidentity.resolve_left fun heq ↦ hrotate (heq.trans h.identity)
      have hended : s.wake rotation renewal = s.tryRotate rotation := if_neg hrotate
      rw [hb, hended]
      exact ⟨[b], rfl, .inr ⟨Bool.not_eq_true _ ▸ hrotate, b, rfl, hoperation, hfailed⟩⟩

/-- **Every wake makes an attempt.** -/
theorem Asleep.attempts_lt (h : s.Asleep) (hclock : s.clock = s.wakeAt)
    (rotation renewal : Option ℕ) :
    s.attempts.length < (s.wake rotation renewal).attempts.length := by
  rcases h.cause with hdeadline | ⟨hbackoff, hage⟩
  · obtain ⟨new, hnew, hmade⟩ := h.renewal_attempted (hclock.trans hdeadline) rotation renewal
    have hne : new ≠ [] := by
      rcases hmade with ⟨a, ha, -⟩ | ⟨-, a, rfl, -⟩
      · exact ne_nil_of_mem ha
      · exact cons_ne_nil _ _
    rw [hnew, length_append]
    exact Nat.lt_add_of_pos_right (length_pos_iff.mpr hne)
  · have hdue : s.RotationDue := by
      rw [← hclock] at hbackoff hage
      exact ⟨hbackoff, (rotateNow_iff h.leaf.ttl_pos).mpr hage⟩
    obtain ⟨hnot, -⟩ | ⟨a, ha, -⟩ := attempts_tryRotate s rotation
    · exact absurd hdue hnot
    have hmade : s.attempts.length < (s.tryRotate rotation).attempts.length := by
      rw [ha, length_append]
      exact Nat.lt_succ_self _
    rw [attempts_wake]
    split_ifs
    · refine hmade.trans_le ?_
      obtain ⟨-, heq⟩ | ⟨b, hb, -⟩ := attempts_tryRenew (s.tryRotate rotation) renewal
      · rw [heq]
      · rw [hb, length_append]
        exact Nat.le_add_right _ _
    · exact hmade

end Wakes

/-! ### Runs of the loop -/

section Runs

variable {s s' : Supervisor} {e : Event}

theorem step_second_eq_some : s.step .second = some s' ↔
    (s.identity = true ∧ s.clock < s.wakeAt) ∧ { s with clock := s.clock + 1 } = s' := by
  rw [step, ite_none_right_eq_some, some_inj]

theorem step_wake_eq_some {rotation renewal} :
    s.step (.wake rotation renewal) = some s' ↔
      (s.identity = true ∧ s.clock = s.wakeAt) ∧ s.wake rotation renewal = s' := by
  rw [step, ite_none_right_eq_some, some_inj]

/-- What holds of a loop at any time: asleep or ended. -/
structure Safe (s : Supervisor) : Prop where
  asleep : s.identity = true → s.Asleep
  retries : s.RetriesInTime

theorem Safe.step (h : s.Safe) (hsound : e.Sound) (hstep : s.step e = some s') : s'.Safe := by
  cases e with
  | second =>
    obtain ⟨⟨hidentity, hlt⟩, rfl⟩ := step_second_eq_some.mp hstep
    exact ⟨fun _ ↦ (h.asleep hidentity).second hlt, h.retries⟩
  | wake rotation renewal =>
    obtain ⟨⟨hidentity, -⟩, rfl⟩ := step_wake_eq_some.mp hstep
    have hasleep := h.asleep hidentity
    exact ⟨hasleep.wake hsound, h.retries.wake hasleep rotation renewal⟩

theorem Safe.run {events} (h : s.Safe) (hsound : ∀ e ∈ events, e.Sound)
    (hrun : s.run events = some s') : s'.Safe := by
  induction events generalizing s with
  | nil =>
    cases hrun
    exact h
  | cons e events ih =>
    obtain ⟨s₁, hstep, hrest⟩ := bind_eq_some_iff.mp ((foldlM_cons ..).symm.trans hrun)
    exact ih (h.step (hsound e mem_cons_self) hstep)
      (fun e he ↦ hsound e (mem_cons_of_mem _ he)) hrest

theorem safe_start {epoch lease leaf} (hlease : 2 ≤ lease) (httl : 3 ≤ leaf.ttlSecs)
    (hissued : leaf.issuedAt ≤ epoch) (hfresh : epoch < leaf.issuedAt + leaf.ttlSecs) :
    (start epoch lease leaf).Safe := by
  have hbefore := tokenRenewAfter_lt hlease
  have hle : satAdd 64 0 (tokenRenewAfter lease) ≤ 0 + tokenRenewAfter lease := satAdd_le_add
  have hlater : satAdd 64 0 (tokenRenewAfter lease) < 0 + lease := by omega
  rw [start, if_neg (by omega)]
  exact ⟨fun _ ↦ asleep_sleep rfl ⟨httl, hissued, hfresh, nofun⟩
    ⟨Nat.zero_le _, satAdd_le_max, hlater, rfl⟩, nofun⟩

/-- The steps that a loop can still take without a renewal. -/
def stepsLeft (s : Supervisor) : ℕ :=
  2 * (s.token.expiry - s.clock) + if s.clock = s.wakeAt then 1 else 0

theorem stepsLeft_lt (h : s.Asleep) (hsound : e.Sound) (hno : e.NoRenewal)
    (hstep : s.step e = some s') (hidentity : s'.identity = true) :
    s'.stepsLeft < s.stepsLeft := by
  have hexpiry := h.token.deadline_lt
  have hdeadline := h.token.clock_le
  cases e with
  | second =>
    obtain ⟨⟨-, hlt⟩, rfl⟩ := step_second_eq_some.mp hstep
    show 2 * (s.token.expiry - (s.clock + 1)) + (if s.clock + 1 = s.wakeAt then 1 else 0) < _
    rw [stepsLeft]
    split_ifs <;> omega
  | wake rotation renewal =>
    obtain ⟨⟨-, heq⟩, rfl⟩ := step_wake_eq_some.mp hstep
    obtain ⟨hclock, htoken, hlater⟩ := h.lt_wakeAt_wake hsound hno hidentity
    rw [stepsLeft, stepsLeft, hclock, htoken, if_neg hlater.ne, if_pos heq]
    omega

theorem identity_of_step (hstep : s.step e = some s') : s.identity = true := by
  cases e with
  | second => exact (step_second_eq_some.mp hstep).1.1
  | wake rotation renewal => exact (step_wake_eq_some.mp hstep).1.1

/-- **Without renewals a loop that has not ended has taken few steps.** -/
theorem length_run_of_noRenewal {events} (h : s.Safe)
    (hevents : ∀ e ∈ events, e.Sound ∧ e.NoRenewal) (hrun : s.run events = some s')
    (hidentity : s'.identity = true) : events.length ≤ s.stepsLeft := by
  induction events generalizing s with
  | nil => exact Nat.zero_le _
  | cons e events ih =>
    obtain ⟨s₁, hstep, hrest⟩ := bind_eq_some_iff.mp ((foldlM_cons ..).symm.trans hrun)
    obtain ⟨hsound, hno⟩ := hevents e mem_cons_self
    have hlength := ih (h.step hsound hstep) (fun e he ↦ hevents e (mem_cons_of_mem _ he)) hrest
    have hidentity₁ : s₁.identity = true := by
      cases events with
      | nil =>
        cases hrest
        exact hidentity
      | cons e' events =>
        obtain ⟨s₂, hstep', -⟩ := bind_eq_some_iff.mp ((foldlM_cons ..).symm.trans hrest)
        exact identity_of_step hstep'
    have hless := stepsLeft_lt (h.asleep (identity_of_step hstep)) hsound hno hstep hidentity₁
    rw [length_cons]
    omega

end Runs

/-- **The loop never serves on an expired credential.** While it holds the identity, the token and
the leaf are valid, and no deadline of a renewal passes. A renewal that is due is attempted at once,
unless the loop ends in the same wake because the leaf cannot be rotated in time. Every retry was
scheduled three seconds before the expiry that it raced. Without renewals the loop goes on until it
ends, after a bounded number of steps. Every wake makes an attempt. -/
theorem serves_on_valid_credentials {epoch lease : ℕ} {leaf : Leaf} {events : List Event}
    {s : Supervisor} (hlease : 2 ≤ lease) (httl : 3 ≤ leaf.ttlSecs)
    (hissued : leaf.issuedAt ≤ epoch)
    (hfresh : epoch < leaf.issuedAt + leaf.ttlSecs) (hsound : ∀ e ∈ events, e.Sound)
    (hrun : (start epoch lease leaf).run events = some s) :
    (s.identity = true → s.clock < s.token.expiry ∧ s.leafAgeSecs < s.leaf.ttlSecs ∧
      s.clock ≤ s.tokenDeadline) ∧
    (∀ rotation renewal s', s.step (.wake rotation renewal) = some s' →
      s.clock = s.tokenDeadline → ∃ new, s'.attempts = s.attempts ++ new ∧
        ((∃ a ∈ new, a.operation = .renewal ∧ a.time = s.clock) ∨
          s'.identity = false ∧
            ∃ a, new = [a] ∧ a.operation = .rotation ∧ a.result = .failedClosed)) ∧
    (∀ a ∈ s.attempts, ∀ d, a.result = .retryAt d → d + 3 ≤ a.expiry) ∧
    (∃ n, ∀ later s', (∀ e ∈ later, e.Sound ∧ e.NoRenewal) → s.run later = some s' →
      s'.identity = true → later.length ≤ n ∧ ((s'.step .second).isSome ∨
        ∀ rotation renewal, (s'.step (.wake rotation renewal)).isSome)) ∧
    ∀ rotation renewal s', s.step (.wake rotation renewal) = some s' →
      s.attempts.length < s'.attempts.length := by
  have hsafe := (safe_start hlease httl hissued hfresh).run hsound hrun
  refine ⟨fun hidentity ↦ ?_, fun rotation renewal s' hstep hdue ↦ ?_, hsafe.retries,
    ⟨s.stepsLeft, fun later s' hlater hrun' hidentity ↦ ⟨length_run_of_noRenewal hsafe hlater hrun'
      hidentity, ?_⟩⟩, fun rotation renewal s' hstep ↦ ?_⟩
  · have hasleep := hsafe.asleep hidentity
    have hvalid := hasleep.leaf.fresh
    have hage := hasleep.leaf.issued
    refine ⟨hasleep.token.clock_le.trans_lt hasleep.token.deadline_lt, ?_, hasleep.token.clock_le⟩
    rw [leafAgeSecs]
    omega
  · obtain ⟨⟨hidentity, -⟩, rfl⟩ := step_wake_eq_some.mp hstep
    exact (hsafe.asleep hidentity).renewal_attempted hdue rotation renewal
  · have hasleep := (hsafe.run (fun e he ↦ (hlater e he).1) hrun').asleep hidentity
    rcases hasleep.clock_le.lt_or_eq with hlt | heq
    · exact .inl (isSome_iff_exists.mpr ⟨_, step_second_eq_some.mpr ⟨⟨hidentity, hlt⟩, rfl⟩⟩)
    · exact .inr fun rotation renewal ↦
        isSome_iff_exists.mpr ⟨_, step_wake_eq_some.mpr ⟨⟨hidentity, heq⟩, rfl⟩⟩
  · obtain ⟨⟨hidentity, hclock⟩, rfl⟩ := step_wake_eq_some.mp hstep
    exact (hsafe.asleep hidentity).attempts_lt hclock rotation renewal

/-- A token of fifteen seconds is renewed at the second attempt. -/
def retriedRenewal : List Event :=
  replicate 10 .second ++ [.wake none none, .second, .second, .wake none (some 15)]

theorem serves_on_valid_credentials_retriedRenewal :
    ∃ s, (start 1000 15 ⟨1000, 3600⟩).run retriedRenewal = some s ∧
      s.attempts.map (·.result) = [.retryAt 12, .succeeded] ∧ s.clock < s.token.expiry ∧
      s.leafAgeSecs < s.leaf.ttlSecs ∧
      ∀ a ∈ s.attempts, ∀ d, a.result = .retryAt d → d + 3 ≤ a.expiry := by
  have hsound : ∀ e ∈ retriedRenewal, e.Sound := by simp [retriedRenewal, Event.Sound]
  obtain ⟨hvalid, -, hretries, -⟩ :=
    @serves_on_valid_credentials 1000 15 ⟨1000, 3600⟩ retriedRenewal _ (by decide)
      (by decide) (by decide) (by decide) hsound rfl
  obtain ⟨htoken, hage, -⟩ := hvalid rfl
  exact ⟨_, rfl, rfl, htoken, hage, hretries⟩

/-- With a token and a leaf of three seconds, both are due now. -/
def bothDue : List Event := [.second, .second]

/-- **A renewal can be due and not be attempted**: the rotation fails first, and there is no time
left for another one. -/
theorem renewal_not_attempted :
    ∃ s s', (start 1000 3 ⟨1000, 3⟩).run bothDue = some s ∧ s.identity = true ∧
      s.clock = s.tokenDeadline ∧ s.step (.wake none (some 3)) = some s' ∧
      ∀ a ∈ s'.attempts, a.operation ≠ .renewal :=
  ⟨_, _, rfl, rfl, rfl, rfl, by decide⟩

end Supervisor

end Maknae.Vault
