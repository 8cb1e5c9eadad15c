import Maknae.StateGraph.Builder

/-!
# The store format: reading a graph

Reading parses the sections it needs (strings, nodes, edges and attributes), gives every record its
attributes, builds a graph from the records as if they had just been collected, and compares its
encoding with the bytes it was given. The indexes and the order of the records are never trusted:
they are made anew and compared.

Strings are copied at every reference. What that may cost is bounded by a budget of
`expansionLimit` times the length of the store.
-/

namespace Maknae.StateGraph

open Outcome Scan

inductive FormatError
  | truncated
  | badMagic
  | unsupportedFormatVersion (version : UInt16)
  | unsupportedSchemaVersion (found expected : UInt16)
  | nonZeroReserved
  | unknownFlags (flags : UInt16)
  | unknownSpaceTag (tag : UInt8)
  | wrongSpace
  | badSectionCount (count : UInt32)
  | badSectionLayout
  | trailingBytes
  | badUtf8
  | badStrRef (i : ℕ)
  | unknownProvenance (code : UInt16)
  | unknownAttrTag (tag : UInt8)
  | badAttrRange
  | expansionLimit
  | nonCanonical
  | graph (e : GraphError)
deriving DecidableEq, Repr

/-- A scan of a stored graph. -/
abbrev Parse := Scan FormatError

/-! ### Fields -/

def decodeSpace (tag : UInt8) (subject : UInt64) : Parse GraphSpace :=
  if tag = 0 then pure .shared
  else if tag = 1 then pure (.user ⟨subject⟩)
  else if tag = 2 then pure .kernel
  else fail (.unknownSpaceTag tag)

def readProvenance (code : UInt16) (transition : UInt64) : Parse Provenance :=
  match ProvenanceKind.fromCode code with
  | some kind => pure ⟨kind, transition⟩
  | none => fail (.unknownProvenance code)

/-- Read bytes that must be zero. -/
def reserved (n : ℕ) : Parse Unit := do
  let bs ← take .truncated n
  refuse (bs.any (· ≠ 0)) .nonZeroReserved

/-- The string at a position of the table, paid for from the budget. -/
def getString (table : List String) (i : ℕ) : Parse String :=
  match table[i]? with
  | some s => do
    spend .expansionLimit (utf8Bytes s).length
    return s
  | none => fail (.badStrRef i)

/-- A string by its position in the table. -/
def readStringRef (table : List String) : Parse String := do
  getString table (← readU32 .truncated).toNat

/-! ### Records -/

def readString : Parse String := do
  let len ← readU32 .truncated
  let bs ← take .truncated len.toNat
  match ofUtf8Bytes bs with
  | some s => pure s
  | none => fail .badUtf8

/-- A record without its attributes, and the range they are in. -/
abbrev Ranged (α : Type) := α × UInt32 × UInt32

def readNode (table : List String) : Parse (Ranged NodeRecord) := do
  let id ← readU64 .truncated
  let kind ← readU16 .truncated
  let code ← readU16 .truncated
  let tag ← readU8 .truncated
  reserved 3
  let subject ← readU64 .truncated
  let key ← readStringRef table
  let label ← readStringRef table
  let revision ← readU64 .truncated
  let transition ← readU64 .truncated
  let start ← readU32 .truncated
  let count ← readU32 .truncated
  let space ← decodeSpace tag subject
  let provenance ← readProvenance code transition
  return (⟨⟨id⟩, space, ⟨kind⟩, key, label, provenance, revision, ∅⟩, start, count)

def readEdge (table : List String) : Parse (Ranged EdgeRecord) := do
  let id ← readU64 .truncated
  let source ← readU64 .truncated
  let target ← readU64 .truncated
  let kind ← readU16 .truncated
  let code ← readU16 .truncated
  let tag ← readU8 .truncated
  reserved 3
  let subject ← readU64 .truncated
  let label ← readStringRef table
  reserved 4
  let revision ← readU64 .truncated
  let transition ← readU64 .truncated
  let start ← readU32 .truncated
  let count ← readU32 .truncated
  let space ← decodeSpace tag subject
  let provenance ← readProvenance code transition
  return (⟨⟨id⟩, space, ⟨source⟩, ⟨target⟩, ⟨kind⟩, label, provenance, revision, ∅⟩, start, count)

/-- The value of an attribute, from its tag on. -/
def readAttrValue (table : List String) : Parse AttrValue := do
  let tag ← readU8 .truncated
  reserved 3
  let raw ← readU64 .truncated
  if tag = attrStrTag then return .str (← getString table raw.toNat)
  else if tag = attrU64Tag then return .u64 raw
  else fail (.unknownAttrTag tag)

def readAttr (table : List String) : Parse (String × AttrValue) := do
  let key ← readStringRef table
  let value ← readAttrValue table
  return (key, value)

/-- Read a counted list that fills its section. -/
def readSection {α : Type} (p : Parse α) : Parse (List α) := do
  let items ← (do readMany p (← readU32 .truncated).toNat)
  finish .trailingBytes
  return items

/-! ### Attributes -/

/-- The attributes not handed out yet, and how many were. -/
abbrev AttrCursor := List (String × AttrValue) × ℕ

/-- Hand out a range of attributes. Ranges follow one another. -/
def takeAttrs (rest : AttrCursor) (start count : UInt32) :
    Outcome FormatError (Attrs × AttrCursor) :=
  if start.toNat ≠ rest.2 ∨ rest.1.length < count.toNat then Outcome.fail .badAttrRange
  else do
    let cursor ← checkedAdd 64 rest.2 count.toNat
    return (.ofList (rest.1.take count.toNat) compare, rest.1.drop count.toNat, cursor)

/-- Give every record its attributes. -/
def attachAttrs {α : Type} (attach : α → Attrs → α) :
    AttrCursor → List (Ranged α) → Outcome FormatError (List α × AttrCursor)
  | rest, [] => .ok ([], rest)
  | rest, (a, start, count) :: records => do
    let (attrs, rest) ← takeAttrs rest start count
    let (done, rest) ← attachAttrs attach rest records
    return (attach a attrs :: done, rest)

def NodeRecord.withAttrs (n : NodeRecord) (attrs : Attrs) : NodeRecord := { n with attrs }

def EdgeRecord.withAttrs (e : EdgeRecord) (attrs : Attrs) : EdgeRecord := { e with attrs }

/-! ### The store -/

/-- What the header says of the graph. -/
structure Header where
  space : GraphSpace
  revision : UInt64

def readHeader (expected : GraphSpace) (schema : Schema) : Parse Header := do
  let start ← take .truncated 4
  refuse (start ≠ magic) .badMagic
  let format ← readU16 .truncated
  refuse (format ≠ formatVersion) (.unsupportedFormatVersion format)
  let schemaVersion ← readU16 .truncated
  refuse (schemaVersion ≠ schema.version)
    (.unsupportedSchemaVersion schemaVersion schema.version)
  let tag ← readU8 .truncated
  let reserved ← readU8 .truncated
  let flags ← readU16 .truncated
  let subject ← readU64 .truncated
  let revision ← readU64 .truncated
  let count ← readU32 .truncated
  let reservedTail ← readU64 .truncated
  refuse (flags ≠ 0) (.unknownFlags flags)
  refuse (reserved ≠ 0 ∨ reservedTail ≠ 0) .nonZeroReserved
  refuse (count.toNat ≠ sectionCount) (.badSectionCount count)
  let space ← decodeSpace tag subject
  refuse (space ≠ expected) .wrongSpace
  return ⟨space, revision⟩

/-- Read the places of `k` sections, the first of which starts at `next`. The answer has the end of
the last. -/
def readSections (bytes : List UInt8) : ℕ → ℕ → Parse (List (List UInt8) × ℕ)
  | 0, next => pure ([], next)
  | k + 1, next => do
    let offset ← readU64 .truncated
    let len ← readU64 .truncated
    refuse (offset.toNat ≠ next) .badSectionLayout
    let stop := offset.toNat + len.toNat
    refuse (2 ^ 64 ≤ stop ∨ bytes.length < stop) .badSectionLayout
    let part ← slice bytes offset.toNat stop
    let (parts, next) ← readSections bytes k stop
    return (part :: parts, next)

/-- The header and the sections. -/
def readFrame (bytes : List UInt8) (expected : GraphSpace) (schema : Schema) :
    Parse (Header × List (List UInt8)) := do
  let header ← readHeader expected schema
  let (sections, next) ← readSections bytes sectionCount sectionsStart
  refuse (next ≠ bytes.length) .trailingBytes
  return (header, sections)

/-- Read one section with the budget that is left. -/
def runSection {α : Type} (p : Parse α) (bytes : List UInt8) (budget : ℕ) :
    Outcome FormatError (List α × ℕ) := do
  let (items, c) ← readSection p ⟨bytes, 0, budget⟩
  return (items, c.allowance)

/-- The records in the sections, and what is left of the budget. -/
def parseRecords (sections : List (List UInt8)) (header : Header) (length : ℕ) :
    Outcome FormatError (GraphBuilder × ℕ) :=
  match sections with
  | [stringPart, nodePart, edgePart, _, _, _, attrPart] => do
    let (table, _) ← runSection readString stringPart 0
    let budget ← checkedMul 64 expansionLimit length
    let (nodes, budget) ← runSection (readNode table) nodePart budget
    let (edges, budget) ← runSection (readEdge table) edgePart budget
    let (attrs, budget) ← runSection (readAttr table) attrPart budget
    let (nodes, rest) ← attachAttrs NodeRecord.withAttrs (attrs, 0) nodes
    let (edges, rest) ← attachAttrs EdgeRecord.withAttrs rest edges
    if rest.1.length ≠ 0 then Outcome.fail .badAttrRange
    else return (⟨header.space, header.revision, nodes, edges⟩, budget)
  | _ => panicked

/-- The records of a store, and what is left of the budget. -/
def parseBudget (bytes : List UInt8) (expected : GraphSpace) (schema : Schema) :
    Outcome FormatError (GraphBuilder × ℕ) := do
  let ((header, sections), _) ← readFrame bytes expected schema ⟨bytes, 0, 0⟩
  parseRecords sections header bytes.length

def parse (bytes : List UInt8) (expected : GraphSpace) (schema : Schema) :
    Outcome FormatError GraphBuilder := do
  let (b, _) ← parseBudget bytes expected schema
  return b

/-- Report the errors of a build as errors of the format. -/
def ofGraphError {α : Type} : Outcome GraphError α → Outcome FormatError α
  | .ok a => .ok a
  | .error (.error e) => Outcome.fail (.graph e)
  | .error .panicked => panicked

/-- Build from parsed records, and refuse bytes that are not the encoding of the result. -/
def rebuildCanonical (b : GraphBuilder) (bytes : List UInt8) (schema : Schema)
    (compiled : CompiledSet) : Outcome FormatError Graph := do
  let (graph, encoded) ← ofGraphError (b.buildEncoded schema compiled)
  if encoded ≠ bytes then Outcome.fail .nonCanonical else return graph

def decode (bytes : List UInt8) (expected : GraphSpace) (schema : Schema)
    (compiled : CompiledSet) : Outcome FormatError Graph := do
  let b ← parse bytes expected schema
  rebuildCanonical b bytes schema compiled

/-- The compiled nodes among a list of nodes, as a compiled set. -/
def compiledOf (nodes : List NodeRecord) : CompiledSet where
  nodes := (nodes.filter fun n ↦ n.provenance.kind = .compiled).map fun n ↦
    ⟨n.kind, n.key, n.label, n.attrs⟩

/-- The compiled nodes among the records. -/
def GraphBuilder.storedCompiled (b : GraphBuilder) : CompiledSet := compiledOf b.nodes

/-- Decode a store against its own compiled nodes, which the caller has to judge. -/
def decodeStoredCompiled (bytes : List UInt8) (expected : GraphSpace) (schema : Schema) :
    Outcome FormatError (Graph × CompiledSet) := do
  let b ← parse bytes expected schema
  let graph ← rebuildCanonical b bytes schema b.storedCompiled
  return (graph, b.storedCompiled)

end Maknae.StateGraph
