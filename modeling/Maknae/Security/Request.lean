import Mathlib.Data.String.Basic

/-!
# Requests of the authorization seam

A request is four attribute maps in the terms every authorizer shares: who asks, for what, which
action, and on which boundary. Attribute values are typed; a value of the wrong type is never read
as an absent one.
-/

namespace Maknae.Security

/-- A typed attribute value. -/
inductive AttrValue
  | str (value : String)
  | int (value : ℤ)
  | bool (value : Bool)
  | set (value : Std.ExtTreeSet String compare)
deriving DecidableEq

/-- Attributes by key. -/
abbrev Attributes := Std.ExtTreeMap String AttrValue compare

/-- The string at a key, or nothing when it is absent or not a string. -/
def Attributes.str (attrs : Attributes) (k : String) : Option String :=
  match attrs[k]? with
  | some (.str s) => some s
  | _ => none

theorem Attributes.str_eq_some_iff {attrs k s} :
    Attributes.str attrs k = some s ↔ attrs[k]? = some (.str s) := by
  unfold Attributes.str
  split
  · next h => simp [h]
  · next h =>
    constructor
    · simp
    · intro hs
      exact absurd hs (h s)

/-- The boundary a request arrived on. -/
def contextDacLane : String := "dac_lane"

/-- The requester's home, stamped by the kernel. -/
def subjectHome : String := "home"

/-- Who initiated a request; only the kernel stamps it. -/
def subjectInitiator : String := "initiator"

/-- The initiator of a request the kernel makes on its own behalf. -/
def initiatorKernel : String := "kernel"

/-- A preapproval no enforcement point stamps; an attempt that carries it is refused. -/
def resourceOsAccessible : String := "os_accessible"

/-- The kernel-stamped preparation kind of a filesystem attempt. -/
def contextFsOperation : String := "fs_operation"

/-- The marking of the content. -/
def resourceClassification : String := "classification"

/-- What a prepared filesystem attempt would do. -/
inductive FsOperation
  | writeExisting
  | writeCreate
  | deleteEntry
  | deleteTree
  | mkdir
  | read
deriving DecidableEq, Repr

namespace FsOperation

def asStr : FsOperation → String
  | writeExisting => "write-existing"
  | writeCreate => "write-create"
  | deleteEntry => "delete-entry"
  | deleteTree => "delete-tree"
  | mkdir => "mkdir"
  | read => "read"

def parse (value : String) : Option FsOperation :=
  if value = "write-existing" then some writeExisting
  else if value = "write-create" then some writeCreate
  else if value = "delete-entry" then some deleteEntry
  else if value = "delete-tree" then some deleteTree
  else if value = "mkdir" then some mkdir
  else if value = "read" then some read
  else none

@[simp] theorem parse_asStr (op : FsOperation) : parse op.asStr = some op := by
  cases op <;> decide

end FsOperation

/-- Which boundary a request arrived on. -/
inductive Lane
  | local
  | remote
deriving DecidableEq, Repr

def Lane.asStr : Lane → String
  | «local» => "local"
  | remote => "remote"

/-- One authorization request. -/
structure Request where
  subject : Attributes
  resource : Attributes
  action : String
  context : Attributes

end Maknae.Security
