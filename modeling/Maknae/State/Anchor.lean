import Maknae.StateGraph.Layers

/-!
# The rollback anchor

Every time the daemon has put a store in place it writes a checkpoint to the audit trail: the
revision of the store and the digest of its bytes. At the next boot the store is held against the
newest checkpoint. A store that is older, or that has other bytes at the same revision, is refused;
a store that is ahead of the checkpoint is not, since the daemon can stop between the two writes.
-/

namespace Maknae.State

open StateGraph

structure Checkpoint where
  revision : UInt64
  digest : Digest

/-- The checkpoint with the higher revision; on a tie, the second. -/
def newer : Option Checkpoint → Option Checkpoint → Option Checkpoint
  | some x, some y => if y.revision < x.revision then some x else some y
  | x, none => x
  | none, y => y

/-- What a store file says of itself. -/
structure StoreFacts where
  revision : UInt64
  digest : Digest

inductive AnchorState
  | verified
  | advanced
  | unavailable

def AnchorState.asStr : AnchorState → String
  | verified => "verified"
  | advanced => "advanced"
  | unavailable => "rollback-anchor-unavailable"

inductive Refusal
  | rolledBack (store checkpoint : UInt64)
  | substituted (revision : UInt64)
  | missing (checkpoint : UInt64)
  | revisionExhausted
deriving DecidableEq, Repr

inductive BootAction
  | seedFirstBoot
  | seedAuthorized (revision : UInt64)
  | load (state : AnchorState)
  | refuse (reason : Refusal)

/-- One more, unless the integer is the last. -/
def checkedSucc (n : UInt64) : Option UInt64 :=
  if n.toNat + 1 < 2 ^ 64 then some (UInt64.ofNat (n.toNat + 1)) else none

/-- What to do at boot, from what the store says, the newest checkpoint, and root's marker. -/
def assess (store : Option StoreFacts) (checkpoint : Option Checkpoint) (reseedAuthorized : Bool) :
    BootAction :=
  if reseedAuthorized then
    let floor := max (store.elim 0 StoreFacts.revision) (checkpoint.elim 0 Checkpoint.revision)
    match checkedSucc floor with
    | some revision => .seedAuthorized revision
    | none => .refuse .revisionExhausted
  else
    match store, checkpoint with
    | none, none => .seedFirstBoot
    | none, some c => .refuse (.missing c.revision)
    | some _, none => .load .unavailable
    | some s, some c =>
      if s.revision < c.revision then .refuse (.rolledBack s.revision c.revision)
      else if s.revision = c.revision ∧ s.digest ≠ c.digest then .refuse (.substituted s.revision)
      else if s.revision = c.revision then .load .verified
      else .load .advanced

end Maknae.State
