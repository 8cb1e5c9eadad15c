import Maknae.StateGraph.Encode
import Mathlib.Data.Prod.Lex

/-!
# Building a graph

The builder collects records in any order. Building sorts them, checks every record against the
schema and the compiled set, makes the indexes, and encodes the result: a graph whose strings would
expand past the decode limit is refused here, so that no graph is built that cannot be loaded again.

After sorting by identifier, nothing depends on the order the records came in. `buildEncoded` is
written as a function of the sorted lists for that reason.
-/

namespace Maknae.StateGraph

open Outcome

inductive GraphError
  | unknownNodeKind (kind : NodeKind)
  | unknownEdgeKind (kind : EdgeKind)
  | duplicateNodeId (id : NodeId)
  | duplicateEdgeId (id : EdgeId)
  | duplicateKey (kind : NodeKind) (key : String)
  | emptyKey (id : NodeId)
  | emptyLabel
  | spaceMismatch
  | danglingEdge (id : EdgeId)
  | forbiddenTriple (source : NodeKind) (edge : EdgeKind) (target : NodeKind)
  | forbiddenTarget (id : EdgeId)
  | compiledProvenance (id : NodeId)
  | compiledEdgeProvenance (id : EdgeId)
  | compiledMismatch (kind : NodeKind) (key : String)
  | compiledMissing (kind : NodeKind) (key : String)
  | expansionLimit
deriving DecidableEq, Repr

structure GraphBuilder where
  space : GraphSpace
  revision : UInt64
  nodes : List NodeRecord
  edges : List EdgeRecord

/-! ### Checks -/

/-- Refuse neighbours that repeat each other. -/
def refuseRepeat {α : Type} (repeats : α → α → Bool) (error : α → GraphError) (l : List α) :
    Outcome GraphError PUnit :=
  match findAdjacent repeats l with
  | some (a, _) => fail (error a)
  | none => .ok ⟨⟩

def canonicalValue : AttrValue → Outcome GraphError (List UInt8)
  | .str s => do return 1 :: (← encodeString s)
  | .u64 n => .ok (2 :: leBytes 8 n.toNat)

def canonicalAttr (a : String × AttrValue) : Outcome GraphError (List UInt8) := do
  return (← encodeString a.1) ++ (← canonicalValue a.2)

def canonicalNode (c : CompiledNode) : Outcome GraphError (List UInt8) := do
  let key ← encodeString c.key
  let label ← encodeString c.label
  let count ← indexU32 c.attrs.size
  let attrs ← c.attrs.toList.mapM canonicalAttr
  return leBytes 2 c.kind.val.toNat ++ key ++ label ++ leBytes 4 count ++ attrs.flatten

/-- The bytes of a compiled set, in which every kind and key stands once. -/
def CompiledSet.canonicalBytes (set : CompiledSet) : Outcome GraphError (List UInt8) := do
  let sorted := sortByKey (fun c ↦ toLex (c.kind.val.toNat, c.key)) set.nodes
  refuseRepeat (fun a b ↦ a.kind = b.kind ∧ a.key = b.key) (fun a ↦ .duplicateKey a.kind a.key)
    sorted
  let count ← indexU32 sorted.length
  let nodes ← sorted.mapM canonicalNode
  return leBytes 4 count ++ nodes.flatten

/-- The compiled set has the node exactly as it is. -/
def matchesCompiled (n : NodeRecord) (compiled : CompiledSet) : Bool :=
  match compiled.get n.kind n.key with
  | some c =>
    c.attrs = n.attrs ∧ c.label = n.label ∧ n.revision = 0 ∧ n.provenance.transition = 0
  | none => false

def checkNode (space : GraphSpace) (schema : Schema) (compiled : CompiledSet) (n : NodeRecord) :
    Outcome GraphError PUnit :=
  if schema.nodeKindName n.kind = none then fail (.unknownNodeKind n.kind)
  else if n.space ≠ space then fail .spaceMismatch
  else if n.key = "" then fail (.emptyKey n.id)
  else if n.label = "" then fail .emptyLabel
  else if schema.isCompiled n.kind then
    if n.provenance.kind ≠ .compiled then fail (.compiledProvenance n.id)
    else if matchesCompiled n compiled then .ok ⟨⟩
    else fail (.compiledMismatch n.kind n.key)
  else if n.provenance.kind = .compiled then fail (.compiledProvenance n.id)
  else .ok ⟨⟩

abbrev KeyEntry := NodeKind × String × UInt32

/-- The order of the key index. -/
def keyOrder (entry : KeyEntry) : ℕ ×ₗ String ×ₗ ℕ :=
  toLex (entry.1.val.toNat, toLex (entry.2.1, entry.2.2.toNat))

def keyIndex (nodes : List NodeRecord) : Outcome GraphError (List KeyEntry) := do
  let keys ← nodes.zipIdx.mapM fun (n, i) ↦ do
    let i ← indexU32 i
    return (n.kind, n.key, UInt32.ofNat i)
  return sortByKey keyOrder keys

/-- Every compiled node is one of the graph. -/
def checkCompiled (schema : Schema) (keys : List KeyEntry) (c : CompiledNode) :
    Outcome GraphError PUnit :=
  if ¬schema.isCompiled c.kind then fail (.compiledMismatch c.kind c.key)
  else if (binarySearchBy (fun entry : KeyEntry ↦ compareKey (entry.1, entry.2.1) (c.kind, c.key))
      keys).isNone then fail (.compiledMissing c.kind c.key)
  else .ok ⟨⟩

/-- The position of a node among the sorted nodes. -/
def positionOf (nodes : List NodeRecord) (id : NodeId) : Option ℕ :=
  binarySearchBy (fun n ↦ compare n.id.val id.val) nodes

def checkEdge (space : GraphSpace) (schema : Schema) (nodes : List NodeRecord) (e : EdgeRecord) :
    Outcome GraphError PUnit :=
  if schema.edgeKindName e.kind = none then fail (.unknownEdgeKind e.kind)
  else if e.space ≠ space then fail .spaceMismatch
  else if e.label = "" then fail .emptyLabel
  else if e.provenance.kind = .compiled then fail (.compiledEdgeProvenance e.id)
  else
    match positionOf nodes e.source, positionOf nodes e.target with
    | some f, some t =>
      match nodes[f]?, nodes[t]? with
      | some source, some target =>
        if ¬schema.allows source.kind e.kind target.kind then
          fail (.forbiddenTriple source.kind e.kind target.kind)
        else if schema.forbidsTarget e.kind target.kind target.key then
          fail (.forbiddenTarget e.id)
        else .ok ⟨⟩
      | _, _ => panicked
    | _, _ => fail (.danglingEdge e.id)

/-! ### Indexes -/

/-- A position as a sort key; a missing one comes first. -/
def rank (position : Option ℕ) : ℕ := position.elim 0 (· + 1)

/-- The order of the edges: by source, then kind, target and identifier. -/
def outOrder (nodes : List NodeRecord) (e : EdgeRecord) : ℕ ×ₗ ℕ ×ₗ ℕ ×ₗ ℕ :=
  toLex (rank (positionOf nodes e.source), toLex (e.kind.val.toNat,
    toLex (e.target.val.toNat, e.id.val.toNat)))

/-- The order of the incoming edges: by target, then kind, source and identifier. -/
def inOrder (nodes : List NodeRecord) (e : EdgeRecord) : ℕ ×ₗ ℕ ×ₗ ℕ ×ₗ ℕ :=
  toLex (rank (positionOf nodes e.target), toLex (e.kind.val.toNat,
    toLex (e.source.val.toNat, e.id.val.toNat)))

/-- Count one edge for its owner. -/
def countOwner (out : List ℕ) (owner : ℕ) : Outcome GraphError (List ℕ) :=
  match out[owner + 1]? with
  | some count => do
    let count ← checkedAdd 32 count 1
    return out.set (owner + 1) count
  | none => panicked

/-- The running sums of a list. -/
def runningSums (sum : ℕ) : List ℕ → Outcome GraphError (List ℕ)
  | [] => .ok []
  | count :: rest => do
    let sum ← checkedAdd 32 sum count
    let rest ← runningSums sum rest
    return sum :: rest

/-- Where the row of each of `nodes` owners starts and ends. -/
def offsets (nodes : ℕ) (owners : List (Option ℕ)) : Outcome GraphError (List UInt32) := do
  let counts ← (owners.filterMap id).foldlM countOwner (List.replicate (nodes + 1) 0)
  let sums ← runningSums 0 counts
  return sums.map UInt32.ofNat

/-- The positions of the edges in the order of incoming edges. -/
def incoming (nodes : List NodeRecord) (edges : List EdgeRecord) :
    Outcome GraphError (List (ℕ × EdgeRecord)) := do
  let indexed ← edges.zipIdx.mapM fun (e, i) ↦ do
    let i ← indexU32 i
    return (i, e)
  return sortByKey (fun p ↦ inOrder nodes p.2) indexed

/-! ### The build -/

/-- Check records in the order of their identifiers, and make the key index. -/
def checkRecords (space : GraphSpace) (nodes : List NodeRecord) (edges : List EdgeRecord)
    (schema : Schema) (compiled : CompiledSet) : Outcome GraphError (List KeyEntry) := do
  refuseRepeat (fun m n ↦ m.id = n.id) (fun n ↦ .duplicateNodeId n.id) nodes
  nodes.forM (checkNode space schema compiled)
  let keys ← keyIndex nodes
  refuseRepeat (fun a b ↦ a.1 = b.1 ∧ a.2.1 = b.2.1) (fun a ↦ .duplicateKey a.1 a.2.1) keys
  compiled.nodes.forM (checkCompiled schema keys)
  refuseRepeat (fun d e ↦ d.id = e.id) (fun e ↦ .duplicateEdgeId e.id) edges
  edges.forM (checkEdge space schema nodes)
  return keys

/-- Put the edges in adjacency order and make the adjacency indexes. -/
def indexRecords (space : GraphSpace) (revision : UInt64) (nodes : List NodeRecord)
    (edges : List EdgeRecord) (schema : Schema) (keys : List KeyEntry) :
    Outcome GraphError Graph := do
  let edges := sortByKey (outOrder nodes) edges
  let outOffsets ← offsets nodes.length (edges.map fun e ↦ positionOf nodes e.source)
  let inEdges ← incoming nodes edges
  let inOffsets ← offsets nodes.length (inEdges.map fun p ↦ positionOf nodes p.2.target)
  return {
    space, revision, schemaVersion := schema.version, nodes, edges, outOffsets, inOffsets
    inEdges := inEdges.map fun p ↦ UInt32.ofNat p.1
    keys }

/-- Encode a graph, and refuse one that expands past the decode limit. -/
def encodeWithin (graph : Graph) : Outcome GraphError (Graph × List UInt8) := do
  let encoded ← encode graph
  let charged ← narrow 64 graph.referenceBytes
  let within ← withinExpansionLimit charged encoded.length
  if within then return (graph, encoded) else fail .expansionLimit

/-- Build from records in the order of their identifiers. -/
def buildSorted (space : GraphSpace) (revision : UInt64) (nodes : List NodeRecord)
    (edges : List EdgeRecord) (schema : Schema) (compiled : CompiledSet) :
    Outcome GraphError (Graph × List UInt8) := do
  let keys ← checkRecords space nodes edges schema compiled
  let graph ← indexRecords space revision nodes edges schema keys
  encodeWithin graph

namespace GraphBuilder

/-- The graph of the records, and its bytes. -/
def buildEncoded (b : GraphBuilder) (schema : Schema) (compiled : CompiledSet) :
    Outcome GraphError (Graph × List UInt8) :=
  buildSorted b.space b.revision (sortByKey (fun n ↦ n.id.val.toNat) b.nodes)
    (sortByKey (fun e ↦ e.id.val.toNat) b.edges) schema compiled

/-- The graph of the records. -/
def build (b : GraphBuilder) (schema : Schema) (compiled : CompiledSet) :
    Outcome GraphError Graph := do
  let (graph, _) ← b.buildEncoded schema compiled
  return graph

end GraphBuilder

end Maknae.StateGraph
