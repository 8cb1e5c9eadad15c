import Maknae.Foundation.OrderedList
import Maknae.StateGraph.Record

/-!
# The indexed state graph and its queries

A graph holds its node records in identifier order, its edge records in adjacency order, the offsets
of each node's row of outgoing and incoming edges, and an index of keys. The queries search these
lists; they are exact on the graphs the builder makes, and only such graphs exist at run time.
-/

namespace Maknae.StateGraph

/-- A state graph with its indexes. -/
structure Graph where
  space : GraphSpace
  revision : UInt64
  schemaVersion : UInt16
  /-- Nodes in identifier order. -/
  nodes : List NodeRecord
  /-- Edges in order of source position, kind, target and identifier. -/
  edges : List EdgeRecord
  /-- Row `i` of the outgoing edges starts at `outOffsets[i]` and ends at `outOffsets[i + 1]`. -/
  outOffsets : List UInt32
  /-- The same for the rows of `inEdges`. -/
  inOffsets : List UInt32
  /-- Positions of the edges in order of target position, kind, source and identifier. -/
  inEdges : List UInt32
  /-- Kind, key and position of every node, in order. -/
  keys : List (NodeKind × String × UInt32)
deriving DecidableEq

/-- Kinds and keys compare kind first. -/
def compareKey (a b : NodeKind × String) : Ordering :=
  (compare a.1.val b.1.val).then (compare a.2 b.2)

namespace Graph

/-- The position of a node among the nodes. -/
def position (g : Graph) (id : NodeId) : Option ℕ :=
  binarySearchBy (fun n ↦ compare n.id.val id.val) g.nodes

/-- The node with this identifier. -/
def node (g : Graph) (id : NodeId) : Option NodeRecord :=
  (g.position id).bind fun i ↦ g.nodes[i]?

/-- The node of this kind and key. -/
def lookup (g : Graph) (kind : NodeKind) (key : String) : Option NodeRecord :=
  (binarySearchBy (fun entry ↦ compareKey (entry.1, entry.2.1) (kind, key)) g.keys).bind fun i ↦
    (g.keys[i]?).bind fun entry ↦ g.nodes[entry.2.2.toNat]?

/-- The part of a row between two offsets. -/
def row {α : Type*} (entries : List α) (offsets : List UInt32) (i : ℕ) : List α :=
  let start := (offsets[i]?.getD 0).toNat
  let stop := (offsets[i + 1]?.getD 0).toNat
  (entries.take stop).drop start

/-- The entries of a row whose edge is of the given kind; the row is in kind order. -/
def ofKind {α : Type*} (entries : List α) (kindOf : α → UInt16) (kind : EdgeKind) : List α :=
  let start := partitionPoint (fun a ↦ kindOf a < kind.val) entries
  let stop := partitionPoint (fun a ↦ kindOf a ≤ kind.val) entries
  (entries.take stop).drop start

/-- The outgoing edges of a node of one kind. -/
def outEdges (g : Graph) (id : NodeId) (kind : EdgeKind) : List EdgeRecord :=
  match g.position id with
  | some i => ofKind (row g.edges g.outOffsets i) (fun e ↦ e.kind.val) kind
  | none => []

end Graph

end Maknae.StateGraph
