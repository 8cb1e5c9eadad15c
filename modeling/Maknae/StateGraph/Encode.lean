import Maknae.Foundation.ByteScan
import Maknae.StateGraph.Graph

/-!
# The store format: writing a graph

A stored graph is a header, a table of sections and seven sections: the strings, the nodes, the
edges, the two adjacency indexes, the key index and the attributes. Every string is stored once, in
a sorted table, and records refer to it by position; every record refers to its attributes by a
range of the attribute section.

Writing has no errors. It panics where a count or a length does not fit its field, and where a
string is not in the table.
-/

namespace Maknae.StateGraph

open Outcome

variable {ε : Type}

/-! ### Constants -/

def magic : List UInt8 := [77, 75, 78, 71]

def formatVersion : UInt16 := 1

def headerLen : ℕ := 40

def sectionCount : ℕ := 7

def sectionsStart : ℕ := headerLen + sectionCount * 16

/-- How much longer than the store its strings may be, written out at every reference. -/
def expansionLimit : ℕ := 4

def attrStrTag : UInt8 := 1

def attrU64Tag : UInt8 := 2

/-- A position or a count in four bytes. -/
def indexU32 (i : ℕ) : Outcome ε ℕ := narrow 32 i

/-! ### Strings -/

def valueStrings : AttrValue → List String
  | .str s => [s]
  | .u64 _ => []

/-- The strings of one attribute. -/
def pairStrings (a : String × AttrValue) : List String := a.1 :: valueStrings a.2

def attrStrings (a : Attrs) : List String := a.toList.flatMap pairStrings

def nodeStrings (n : NodeRecord) : List String := n.key :: n.label :: attrStrings n.attrs

def edgeStrings (e : EdgeRecord) : List String := e.label :: attrStrings e.attrs

/-- The strings of some records, once for each reference. -/
def recordStrings (nodes : List NodeRecord) (edges : List EdgeRecord) : List String :=
  nodes.flatMap nodeStrings ++ edges.flatMap edgeStrings

/-- Every string of a graph, once for each reference. -/
def Graph.strings (g : Graph) : List String := recordStrings g.nodes g.edges

/-- The strings of a graph in order, each once. -/
def stringTable (g : Graph) : List String :=
  (g.strings.insertionSort (· ≤ ·)).destutter (· ≠ ·)

/-- The bytes of some strings together. -/
def stringsLength (strings : List String) : ℕ := (strings.map fun s ↦ (utf8Bytes s).length).sum

/-- The length of all strings at all references. -/
def Graph.referenceBytes (g : Graph) : ℕ := stringsLength g.strings

/-- The position of a string in the table. -/
def sref (strings : List String) (s : String) : Outcome ε ℕ :=
  match binarySearchBy (fun t ↦ compare t s) strings with
  | some i => indexU32 i
  | none => panicked

/-! ### Records -/

def spaceParts : GraphSpace → UInt8 × UInt64
  | .shared => (0, 0)
  | .user subject => (1, subject.val)
  | .kernel => (2, 0)

/-- The attribute section under construction: its bytes and the number of attributes in it. -/
structure AttrBody where
  bytes : List UInt8
  count : ℕ

def encodeAttrValue (strings : List String) : AttrValue → Outcome ε (List UInt8)
  | .str s => do
    let i ← sref strings s
    return leBytes 1 attrStrTag.toNat ++ [0, 0, 0] ++ leBytes 8 i
  | .u64 x => return leBytes 1 attrU64Tag.toNat ++ [0, 0, 0] ++ leBytes 8 x.toNat

def pushAttr (strings : List String) (out : AttrBody) (a : String × AttrValue) :
    Outcome ε AttrBody := do
  let key ← sref strings a.1
  let value ← encodeAttrValue strings a.2
  let count ← checkedAdd 32 out.count 1
  return ⟨out.bytes ++ (leBytes 4 key ++ value), count⟩

/-- Append the attributes of a record; the answer has their range. -/
def pushAttrs (strings : List String) (out : AttrBody) (a : Attrs) :
    Outcome ε ((ℕ × ℕ) × AttrBody) := do
  let next ← a.toList.foldlM (pushAttr strings) out
  let count ← indexU32 a.size
  return ((out.count, count), next)

def encodeNode (strings : List String) (n : NodeRecord) (range : ℕ × ℕ) :
    Outcome ε (List UInt8) := do
  let (tag, subject) := spaceParts n.space
  let key ← sref strings n.key
  let label ← sref strings n.label
  return leBytes 8 n.id.val.toNat ++ (leBytes 2 n.kind.val.toNat ++
    (leBytes 2 n.provenance.kind.code.toNat ++ (leBytes 1 tag.toNat ++ ([0, 0, 0] ++
    (leBytes 8 subject.toNat ++ (leBytes 4 key ++ (leBytes 4 label ++
    (leBytes 8 n.revision.toNat ++ (leBytes 8 n.provenance.transition.toNat ++
    (leBytes 4 range.1 ++ leBytes 4 range.2))))))))))

def encodeEdge (strings : List String) (e : EdgeRecord) (range : ℕ × ℕ) :
    Outcome ε (List UInt8) := do
  let (tag, subject) := spaceParts e.space
  let label ← sref strings e.label
  return leBytes 8 e.id.val.toNat ++ (leBytes 8 e.source.val.toNat ++
    (leBytes 8 e.target.val.toNat ++ (leBytes 2 e.kind.val.toNat ++
    (leBytes 2 e.provenance.kind.code.toNat ++ (leBytes 1 tag.toNat ++ ([0, 0, 0] ++
    (leBytes 8 subject.toNat ++ (leBytes 4 label ++ ([0, 0, 0, 0] ++
    (leBytes 8 e.revision.toNat ++ (leBytes 8 e.provenance.transition.toNat ++
    (leBytes 4 range.1 ++ leBytes 4 range.2))))))))))))

/-- A section of records under construction, with the attribute section. -/
structure RecordBody where
  bytes : List UInt8
  attrs : AttrBody

/-- Append a record after its attributes. -/
def pushRecord {α : Type} (strings : List String) (attrsOf : α → Attrs)
    (encodeRecord : α → ℕ × ℕ → Outcome ε (List UInt8)) (out : RecordBody) (a : α) :
    Outcome ε RecordBody := do
  let (range, attrs) ← pushAttrs strings out.attrs (attrsOf a)
  let record ← encodeRecord a range
  return ⟨out.bytes ++ record, attrs⟩

def pushNode (strings : List String) : RecordBody → NodeRecord → Outcome ε RecordBody :=
  pushRecord strings NodeRecord.attrs (encodeNode strings)

def pushEdge (strings : List String) : RecordBody → EdgeRecord → Outcome ε RecordBody :=
  pushRecord strings EdgeRecord.attrs (encodeEdge strings)

def encodeKey (strings : List String) (entry : NodeKind × String × UInt32) :
    Outcome ε (List UInt8) := do
  let key ← sref strings entry.2.1
  return leBytes 2 entry.1.val.toNat ++ (leBytes 2 0 ++ (leBytes 4 key ++
    leBytes 4 entry.2.2.toNat))

def encodeString (s : String) : Outcome ε (List UInt8) := do
  let length ← indexU32 (utf8Bytes s).length
  return leBytes 4 length ++ utf8Bytes s

/-! ### The store -/

def encodeOffsets (offsets : List UInt32) : List UInt8 :=
  offsets.flatMap fun o ↦ leBytes 4 o.toNat

/-- The seven sections of a graph. -/
def encodeSections (g : Graph) : Outcome ε (List (List UInt8)) := do
  let strings := stringTable g
  let nodeCount ← indexU32 g.nodes.length
  let nodes ← g.nodes.foldlM (pushNode strings) ⟨leBytes 4 nodeCount, [], 0⟩
  let edgeCount ← indexU32 g.edges.length
  let edges ← g.edges.foldlM (pushEdge strings) ⟨leBytes 4 edgeCount, nodes.attrs⟩
  let keys ← g.keys.mapM (encodeKey strings)
  let stringCount ← indexU32 strings.length
  let texts ← strings.mapM encodeString
  return [leBytes 4 stringCount ++ texts.flatten, nodes.bytes, edges.bytes,
    encodeOffsets g.outOffsets, encodeOffsets g.inOffsets ++ encodeOffsets g.inEdges,
    keys.flatten, leBytes 4 edges.attrs.count ++ edges.attrs.bytes]

/-- Append the place of a section to the table of sections. -/
def pushSection (out : List UInt8 × ℕ) (section' : List UInt8) : Outcome ε (List UInt8 × ℕ) := do
  let next ← checkedAdd 64 out.2 section'.length
  return (out.1 ++ (leBytes 8 out.2 ++ leBytes 8 section'.length), next)

def encodeHeader (g : Graph) : List UInt8 :=
  let (tag, subject) := spaceParts g.space
  magic ++ (leBytes 2 formatVersion.toNat ++ (leBytes 2 g.schemaVersion.toNat ++
    (leBytes 1 tag.toNat ++ (leBytes 1 0 ++ (leBytes 2 0 ++ (leBytes 8 subject.toNat ++
    (leBytes 8 g.revision.toNat ++ (leBytes 4 sectionCount ++ leBytes 8 0))))))))

/-- The bytes of a stored graph. -/
def encode (g : Graph) : Outcome ε (List UInt8) := do
  let sections ← encodeSections g
  let table ← sections.foldlM pushSection ([], sectionsStart)
  return encodeHeader g ++ (table.1 ++ sections.flatten)

def withinExpansionLimit (charged encodedLen : ℕ) : Outcome ε Bool := do
  let limit ← checkedMul 64 expansionLimit encodedLen
  return charged ≤ limit

end Maknae.StateGraph
