import Maknae.StateGraph.Graph
import Maknae.StateGraph.Kernel

/-!
# Roles, and the role a subject resolves to

The four shipped roles, and their resolution by hops over the identity layer of a compiled graph. A
subject's `contained` edge is consulted before its `binds` edge, so containment outranks a binding;
without explicit bindings only the enrolled principal has a role.
-/

namespace Maknae.Authz

open StateGraph

/-- One of the four shipped roles. -/
inductive Role
  | admin
  | user
  | guest
  | adversary
deriving DecidableEq, Repr

namespace Role

/-- The policy-file spelling of a role. -/
def key : Role → String
  | admin => "admin"
  | user => "user"
  | guest => "guest"
  | adversary => "adversary"

/-- The closed role vocabulary. -/
def fromKey (k : String) : Option Role :=
  if k = "admin" then some admin
  else if k = "user" then some user
  else if k = "guest" then some guest
  else if k = "adversary" then some adversary
  else none

@[simp] theorem fromKey_key (r : Role) : fromKey r.key = some r := by
  cases r <;> decide

theorem key_injective : Function.Injective key := fun r s h ↦ by
  rw [← Option.some_inj, ← fromKey_key r, h, fromKey_key]

end Role

/-- The outcome of subject resolution. -/
inductive Resolution
  | role (role : Role)
  | noRole
deriving DecidableEq, Repr

/-- Subject resolution over a compiled snapshot's identity layer. -/
structure GraphBindings where
  graph : Graph
  explicit : Bool

namespace GraphBindings

/-- Bindings are explicit when the graph has the bindings section of its source. -/
def new (graph : Graph) (source : String) : GraphBindings where
  graph := graph
  explicit := (graph.lookup sectionKind (bindingsSectionKey source)).isSome

/-- The role of a uid. -/
def roleFor (b : GraphBindings) (uid principalUid : UInt32) : Resolution :=
  if !b.explicit then if uid = principalUid then .role .admin else .noRole
  else
    match b.graph.lookup subjectKind (subjectKey uid) with
    | none => .noRole
    | some subject =>
      if (b.graph.outEdges subject.id contained).head?.isSome then .role .adversary
      else
        match ((b.graph.outEdges subject.id binds).head?.bind fun e ↦ b.graph.node e.target).bind
            fun r ↦ Role.fromKey r.key with
        | some r => .role r
        | none => .noRole

end GraphBindings

end Maknae.Authz
