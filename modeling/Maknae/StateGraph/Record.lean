import Mathlib.Data.String.Basic

/-!
# Records and schema of the state graph

A state graph is a set of node and edge records, each with an identifier, a kind, a classification
label, where it came from and a map of attributes. The schema says which kinds exist, which edges
may join which nodes, and which node kinds are compiled into the binary; the compiled set lists
those nodes.

Identifiers and kinds are the source's fixed-width integers, since the store writes them as such.
-/

namespace Maknae.StateGraph

/-! ### Identifiers and kinds -/

structure NodeId where
  val : UInt64
deriving DecidableEq, Repr

structure EdgeId where
  val : UInt64
deriving DecidableEq, Repr

structure NodeKind where
  val : UInt16
deriving DecidableEq, Repr

structure EdgeKind where
  val : UInt16
deriving DecidableEq, Repr

structure SubjectId where
  val : UInt64
deriving DecidableEq, Repr

/-- Whose graph a record belongs to. -/
inductive GraphSpace
  | shared
  | user (subject : SubjectId)
  | kernel
deriving DecidableEq, Repr

/-- Where a record came from. -/
inductive ProvenanceKind
  | compiled
  | seed
  | rootFile
  | operator
  | kernel
deriving DecidableEq, Repr

namespace ProvenanceKind

/-- The stored code of a provenance. -/
def code : ProvenanceKind → UInt16
  | compiled => 1
  | seed => 2
  | rootFile => 3
  | operator => 4
  | kernel => 5

/-- The provenance a stored code names. -/
def fromCode (code : UInt16) : Option ProvenanceKind :=
  if code = 1 then some compiled
  else if code = 2 then some seed
  else if code = 3 then some rootFile
  else if code = 4 then some operator
  else if code = 5 then some kernel
  else none

@[simp] theorem fromCode_code (k : ProvenanceKind) : fromCode k.code = some k := by
  cases k <;> rfl

end ProvenanceKind

structure Provenance where
  kind : ProvenanceKind
  transition : UInt64
deriving DecidableEq, Repr

/-! ### Records -/

inductive AttrValue
  | str (value : String)
  | u64 (value : UInt64)
deriving DecidableEq, Repr

/-- Attributes by key, in key order. -/
abbrev Attrs := Std.ExtTreeMap String AttrValue compare

structure NodeRecord where
  id : NodeId
  space : GraphSpace
  kind : NodeKind
  key : String
  label : String
  provenance : Provenance
  revision : UInt64
  attrs : Attrs
deriving DecidableEq

structure EdgeRecord where
  id : EdgeId
  space : GraphSpace
  source : NodeId
  target : NodeId
  kind : EdgeKind
  label : String
  provenance : Provenance
  revision : UInt64
  attrs : Attrs
deriving DecidableEq

/-! ### Schema and compiled set -/

/-- The kinds of a graph, the edges they allow, and the kinds compiled into the binary. -/
structure Schema where
  version : UInt16
  nodeKinds : List (NodeKind × String)
  edgeKinds : List (EdgeKind × String)
  triples : List (NodeKind × EdgeKind × NodeKind)
  compiledKinds : List NodeKind
  forbiddenTargets : List (EdgeKind × NodeKind × String)

namespace Schema

def nodeKindName (schema : Schema) (kind : NodeKind) : Option String :=
  (schema.nodeKinds.find? fun entry ↦ entry.1 = kind).map Prod.snd

def edgeKindName (schema : Schema) (kind : EdgeKind) : Option String :=
  (schema.edgeKinds.find? fun entry ↦ entry.1 = kind).map Prod.snd

/-- An edge of this kind may join these node kinds, in this direction. -/
def allows (schema : Schema) (source : NodeKind) (edge : EdgeKind) (target : NodeKind) : Bool :=
  (source, edge, target) ∈ schema.triples

def isCompiled (schema : Schema) (kind : NodeKind) : Bool :=
  kind ∈ schema.compiledKinds

/-- No edge of this kind may reach the node of this kind and key. -/
def forbidsTarget (schema : Schema) (edge : EdgeKind) (target : NodeKind) (key : String) : Bool :=
  schema.forbiddenTargets.any fun entry ↦
    entry.1 = edge && entry.2.1 = target && entry.2.2 = key

end Schema

/-- A node the binary compiles in. -/
structure CompiledNode where
  kind : NodeKind
  key : String
  label : String
  attrs : Attrs
deriving DecidableEq

structure CompiledSet where
  nodes : List CompiledNode

/-- The first compiled node of this kind and key. -/
def CompiledSet.get (set : CompiledSet) (kind : NodeKind) (key : String) : Option CompiledNode :=
  set.nodes.find? fun c ↦ c.kind = kind && c.key = key

end Maknae.StateGraph
