import Maknae.Foundation.Saturating
import Mathlib.Tactic.Common

/-!
# The decisions of the credential supervisor

A plane holds a token that has to be renewed and a leaf certificate that has to be rotated, each
before it expires. When to try, and when to try again after a failure, is decided here from numbers
alone.

A retry is only scheduled when it starts at least three seconds before the expiry that it races
(`retryDeadline_eq_some`). A leaf is rotated from an age on that is below its lifetime
(`rotateAge_lt`), and the deadline of a rotation is the moment at which the leaf has that age.

Durations are whole seconds, and the sums saturate where the code's do. The product in
`tokenRenewAfter` wraps, as it does without overflow checks.
-/

namespace Maknae.Vault

/-- What to do after a failed attempt. -/
inductive RetryAction
  | wait (secs : ℕ)
  | retryNow
  | failClosed

def retryAction (remainingSecs _elapsedInWindow attempt : ℕ) : RetryAction :=
  let backoff := min (satPow 64 2 (min attempt 6)) 30
  if remainingSecs ≤ satAdd 64 backoff 2 then .failClosed else .wait backoff

/-- The leaf has used two thirds of its lifetime. -/
def rotateNow (leafAgeSecs leafTtlSecs : ℕ) : Bool :=
  decide (0 < leafTtlSecs) && decide (satMul 64 leafTtlSecs 2 ≤ satMul 64 leafAgeSecs 3)

/-- The smallest age with `rotateNow`: two thirds of the lifetime, rounded up. -/
def rotateAge (leafTtlSecs : ℕ) : ℕ := (satMul 64 leafTtlSecs 2 + 2) / 3

def leafRotateDeadline (nowSecs leafAgeSecs leafTtlSecs : ℕ) : ℕ :=
  if leafTtlSecs = 0 then maxUnsigned 64
  else satAdd 64 nowSecs (rotateAge leafTtlSecs - leafAgeSecs)

def nextWake (nowSecs tokenDeadlineSecs leafDeadlineSecs : ℕ) : ℕ :=
  max (min tokenDeadlineSecs leafDeadlineSecs) nowSecs

def retryDeadline (nowSecs : ℕ) : RetryAction → Option ℕ
  | .wait secs => some (satAdd 64 nowSecs secs)
  | .retryNow => some nowSecs
  | .failClosed => none

/-- When to renew a token after it was granted. -/
def tokenRenewAfter (leaseSecs : ℕ) : ℕ := max (leaseSecs * 2 % 2 ^ 64 / 3) 1

/-! ### Retries -/

theorem backoff_pos (attempt : ℕ) : 0 < min (satPow 64 2 (min attempt 6)) 30 := by
  have hpow : 0 < 2 ^ min attempt 6 := Nat.two_pow_pos _
  have hmax : 0 < maxUnsigned 64 := by decide
  rw [satPow]
  omega

/-- **A retry starts three seconds before the end of what remains**, and not before now. -/
theorem retryDeadline_eq_some {now remaining elapsed attempt d}
    (h : retryDeadline now (retryAction remaining elapsed attempt) = some d) :
    d + 3 ≤ now + remaining ∧ d ≤ maxUnsigned 64 ∧ (now < maxUnsigned 64 → now < d) ∧
      (now ≤ maxUnsigned 64 → now ≤ d) := by
  have hpos := backoff_pos attempt
  have hcap : min (satPow 64 2 (min attempt 6)) 30 ≤ 30 := Nat.min_le_right _ _
  rw [retryAction] at h
  generalize min (satPow 64 2 (min attempt 6)) 30 = backoff at h hpos hcap
  split_ifs at h with hremaining
  · exact nomatch h
  · obtain rfl : satAdd 64 now backoff = d := Option.some.inj h
    have hsum : satAdd 64 backoff 2 = backoff + 2 := Nat.min_eq_left (by rw [maxUnsigned]; omega)
    have hle : satAdd 64 now backoff ≤ now + backoff := satAdd_le_add
    exact ⟨by omega, satAdd_le_max, fun hnow ↦ lt_satAdd hnow hpos, le_satAdd⟩

/-! ### Rotation -/

theorem rotateNow_iff {age ttl} (httl : 0 < ttl) :
    rotateNow age ttl = true ↔ rotateAge ttl ≤ age := by
  have hmax : satMul 64 ttl 2 ≤ maxUnsigned 64 := Nat.min_le_right _ _
  have hle : satMul 64 ttl 2 ≤ satMul 64 age 3 ↔ satMul 64 ttl 2 ≤ age * 3 :=
    Nat.le_min.trans (and_iff_left hmax)
  rw [rotateNow, Bool.and_eq_true, decide_eq_true_eq, decide_eq_true_eq, rotateAge]
  omega

theorem rotateAge_lt {ttl} (httl : 3 ≤ ttl) : rotateAge ttl < ttl := by
  rw [rotateAge, satMul]
  omega

theorem rotateAge_pos {ttl} (httl : 0 < ttl) : 0 < rotateAge ttl := by
  have hmax : 0 < maxUnsigned 64 := by decide
  rw [rotateAge, satMul]
  omega

/-! ### Renewal -/

theorem tokenRenewAfter_pos (lease : ℕ) : 0 < tokenRenewAfter lease := by
  rw [tokenRenewAfter]
  omega

/-- A token is renewed before it expires. -/
theorem tokenRenewAfter_lt {lease} (h : 2 ≤ lease) : tokenRenewAfter lease < lease := by
  rw [tokenRenewAfter]
  omega

end Maknae.Vault
