import Maknae.Foundation.OsPath
import Maknae.StateGraph.Builder
import Maknae.StateGraph.Identity

/-!
# The layers of the kernel's graph

The kernel keeps three things in its state graph: the identity layer, the baseline configuration it
last accepted, and the base of its bindings sync. `Identity.build` writes them as records of one
graph, and `Identity.extract` reads them back from a graph, refusing one that does not hold each of
them in exactly one place.

Records are numbered in the order they are written. A `Draft` is the list of records so far, so that
the number of a new record is one more than the length of its list.
-/

namespace Maknae.StateGraph

/-- A digest of 32 bytes. -/
abbrev Digest := Vector UInt8 32

/-! ### Digests as text -/

/-- The two lower-case hexadecimal digits of a byte. -/
def hexByte (b : UInt8) : List Char :=
  [Nat.digitChar (b.toNat / 16), Nat.digitChar (b.toNat % 16)]

def hex (d : Digest) : String := String.ofList (d.toList.flatMap hexByte)

def isHexDigit (c : Char) : Bool :=
  ('0'.toNat ≤ c.toNat && c.toNat ≤ '9'.toNat) || ('a'.toNat ≤ c.toNat && c.toNat ≤ 'f'.toNat)

def nibble (c : Char) : UInt8 :=
  if 'a'.toNat ≤ c.toNat ∧ c.toNat ≤ 'f'.toNat then UInt8.ofNat (c.toNat - 'a'.toNat + 10)
  else UInt8.ofNat (c.toNat - '0'.toNat)

/-- The bytes of pairs of hexadecimal digits. -/
def unhexChars : List Char → List UInt8
  | hi :: lo :: rest => ((nibble hi <<< 4) + nibble lo) :: unhexChars rest
  | _ => []

def unhex (s : String) : Option Digest :=
  if s.toList.length ≠ 64 ∨ ¬s.toList.all isHexDigit then none
  else if h : (unhexChars s.toList).length = 32 then some ⟨(unhexChars s.toList).toArray, by simpa⟩
  else none

/-! ### Layers -/

/-- The accepted baseline configuration. -/
structure BaselineLayer where
  /-- Section name and canonical JSON, as accepted. -/
  sections : Std.ExtTreeMap String String compare
  system : String
  ceiling : String
  sha256 : Digest
  /-- The audit trail path accepted before, set by an accept that moved it. -/
  movedFrom : Option String
deriving DecidableEq

/-- The texts of the sync state. -/
structure SyncBase where
  base : String
  live : String
  conflicts : String
deriving DecidableEq, Repr

/-- What a graph holds. -/
structure Extracted where
  layer : IdentityLayer
  vocabularySha256 : Option Digest
  unbound : List UInt32
  baseline : Option BaselineLayer
  sync : Option SyncBase

inductive IdentityError
  | graph (e : GraphError)
  | badAttr (node : UInt64) (attr : String)
  | unknownRole (role : String)
  | ambiguous (node : UInt64) (what : String)
  | baselineAttr (node : UInt64) (attr : String)
  | baselineAmbiguous (node : UInt64) (what : String)
  | labelMismatch (key : String)
  | badAlias (name : String)
  | syncAttr (node : UInt64) (attr : String)
  | syncAmbiguous (node : UInt64) (what : String)
deriving DecidableEq, Repr

/-! ### Keys -/

def baselineSourceKey : String := "baseline:maknae.yaml"
def instanceKey : String := "instance"
def attrMovedFrom : String := "moved_from"

def containmentKey (source : String) : String := s!"{source}#bindings.{adversary}"

namespace Baseline

def sectionKey (name : String) : String := s!"{baselineSourceKey}#{name}"

def levelKey (system level : String) : String := s!"{system}:{level}"

/-- The name of a baseline section, from the key of its node. -/
def sectionName (n : NodeRecord) : Option String :=
  (Text.stripPrefix baselineSourceKey n.key).bind (Text.stripPrefix "#")

end Baseline

namespace Sync

def syncKey (source : String) : String := s!"{source}#sync"

/-- The text stands for a bindings section that is there. -/
def explicit (token : String) : Bool := token ≠ "null" && token ≠ "missing"

end Sync

/-! ### Writing the records -/

/-- The records written so far, and what every new one carries. -/
structure Draft where
  revision : UInt64
  prov : Provenance
  label : String
  nodes : List NodeRecord
  edges : List EdgeRecord

/-- A step of writing records. -/
abbrev Drafting := StateT Draft (Except IdentityError)

namespace Drafting

def refuse {α : Type} (e : IdentityError) : Drafting α := fun _ ↦ .error e

def refuseIf (c : Prop) [Decidable c] (e : IdentityError) : Drafting Unit :=
  if c then refuse e else pure ()

/-- Write the next node. -/
def addNode (kind : NodeKind) (key : String) (attrs : Attrs) : Drafting NodeId := fun d ↦
  let id : NodeId := ⟨UInt64.ofNat (d.nodes.length + 1)⟩
  let n : NodeRecord := ⟨id, .kernel, kind, key, d.label, d.prov, d.revision, attrs⟩
  .ok (id, { d with nodes := d.nodes ++ [n] })

/-- Write the node the binary compiles in. -/
def addCompiledNode (c : CompiledNode) : Drafting NodeId := fun d ↦
  let id : NodeId := ⟨UInt64.ofNat (d.nodes.length + 1)⟩
  let n : NodeRecord := ⟨id, .kernel, c.kind, c.key, c.label, ⟨.compiled, 0⟩, 0, c.attrs⟩
  .ok (id, { d with nodes := d.nodes ++ [n] })

/-- Write the next edge. -/
def addEdge (source : NodeId) (kind : EdgeKind) (target : NodeId) : Drafting Unit := fun d ↦
  let id : EdgeId := ⟨UInt64.ofNat (d.edges.length + 1)⟩
  let e : EdgeRecord := ⟨id, .kernel, source, target, kind, d.label, d.prov, d.revision, ∅⟩
  .ok ((), { d with edges := d.edges ++ [e] })

/-- Say which section declares a node, where there is one. -/
def declare (id : NodeId) : Option NodeId → Drafting Unit
  | some sec => addEdge id declaredBy sec
  | none => pure ()

end Drafting

/-- Attributes with string values. -/
def strAttrs (entries : List (String × String)) : Attrs :=
  .ofList (entries.map fun (k, v) ↦ (k, .str v)) compare

open Drafting

namespace Baseline

/-- Write one section of the baseline; the answer is the node of the section `core`. -/
def addSection (source : NodeId) (core : Option NodeId) (entry : String × String) :
    Drafting (Option NodeId) := do
  let id ← addNode sectionKind (sectionKey entry.1) (strAttrs [(attrValue, entry.2)])
  refuseIf (entry.1 = "") (.baselineAmbiguous id.val "baseline section without a name")
  addEdge id partOf source
  return if entry.1 = "core" then some id else core

/-- Write a baseline. -/
def add (bl : BaselineLayer) : Drafting Unit := do
  let moved := bl.movedFrom.toList.map fun path ↦ (attrMovedFrom, path)
  let source ← addNode configSource baselineSourceKey
    (strAttrs ((attrSha256, hex bl.sha256) :: moved))
  refuseIf (bl.sections.isEmpty = true) (.baselineAmbiguous source.val "baseline without a section")
  let core ← bl.sections.toList.foldlM (addSection source) none
  let inst ← addNode instanceKind instanceKey ∅
  let system ← addNode classificationSystem bl.system ∅
  let lvl ← addNode level (levelKey bl.system bl.ceiling) ∅
  addEdge inst declares system
  addEdge lvl levelOf system
  declare inst core
  declare system core
  declare lvl core

def build : Option BaselineLayer → Drafting Unit
  | some bl => add bl
  | none => pure ()

end Baseline

namespace Sync

/-- Write the sync state of a source. -/
def add (source : NodeId) (sourceKey : String) (s : SyncBase) : Drafting Unit := do
  let fields := [(attrBase, s.base), (attrLive, s.live), (attrConflicts, s.conflicts)]
  fields.forM fun f ↦ refuseIf (f.2 = "") (.syncAttr source.val f.1)
  let id ← addNode syncBaseKind (syncKey sourceKey) (strAttrs fields)
  addEdge id partOf source

def build (source : NodeId) (sourceKey : String) : Option SyncBase → Drafting Unit
  | some s => add source sourceKey s
  | none => pure ()

end Sync

namespace Identity

abbrev RoleIds := Std.ExtTreeMap String NodeId compare

abbrev AliasNames := Std.ExtTreeMap UInt32 (List String) compare

/-- Write a compiled node, and remember where a role is. -/
def addCompiled (roles : RoleIds) (c : CompiledNode) : Drafting RoleIds := do
  let id ← addCompiledNode c
  return if c.kind = roleKind then roles.insert c.key id else roles

/-- Write the section of the bindings, where the layer has one. -/
def addBindingsSection (layer : IdentityLayer) (source : NodeId) : Drafting (Option NodeId) :=
  match layer.bindingsSha256 with
  | some d => do
    let id ← addNode sectionKind (bindingsSectionKey layer.source) (strAttrs [(attrSha256, hex d)])
    addEdge id partOf source
    return some id
  | none => pure none

/-- An alias names a contained uid, not a contained subject's own name, and can be listed. -/
def aliasAllowed (layer : IdentityLayer) (name : String) (uid : UInt32) : Bool :=
  (layer.subjects.any fun s ↦ s.uid == uid && s.role == adversary) &&
    !(layer.subjects.any fun s ↦ s.role == adversary && s.name == name) &&
    name != "" && !name.toList.contains ','

def collectAlias (layer : IdentityLayer) (out : AliasNames) (entry : String × UInt32) :
    Except IdentityError AliasNames :=
  if aliasAllowed layer entry.1 entry.2 then
    .ok (out.insert entry.2 (out.getD entry.2 [] ++ [entry.1]))
  else .error (.badAlias entry.1)

/-- The aliases of each uid. -/
def aliasNames (layer : IdentityLayer) : Except IdentityError AliasNames :=
  layer.aliases.toList.foldlM (collectAlias layer) ∅

def subjectAttrs (aliases : AliasNames) (s : SubjectEntry) : Attrs :=
  let attrs : Attrs := .ofList [(attrName, .str s.name), (attrUid, .u64 s.uid.toUInt64)] compare
  match aliases[s.uid]? with
  | some names =>
    if s.role = adversary then attrs.insert attrAliases (.str (",".intercalate names)) else attrs
  | none => attrs

/-- The containment node, written when the first contained subject needs it. -/
def containmentNode (layer : IdentityLayer) (sectionId : Option NodeId) :
    Option NodeId → Drafting NodeId
  | some id => pure id
  | none => do
    let id ← addNode containment (containmentKey layer.source) ∅
    declare id sectionId
    return id

/-- Contain a subject, or bind it to its role. -/
def addRole (layer : IdentityLayer) (sectionId containmentId : Option NodeId) (role : String)
    (sid roleId : NodeId) : Drafting (Option NodeId) :=
  if role = adversary then do
    let cid ← containmentNode layer sectionId containmentId
    addEdge sid contained cid
    return some cid
  else do
    addEdge sid binds roleId
    return containmentId

/-- Write a subject; the answer is the containment node, once there is one. -/
def addSubject (layer : IdentityLayer) (roles : RoleIds) (aliases : AliasNames)
    (sectionId : Option NodeId) (containmentId : Option NodeId) (s : SubjectEntry) :
    Drafting (Option NodeId) :=
  match roles[s.role]? with
  | none => refuse (.unknownRole s.role)
  | some roleId => do
    let sid ← addNode subjectKind (subjectKey s.uid) (subjectAttrs aliases s)
    let containmentId ← addRole layer sectionId containmentId s.role sid roleId
    declare sid sectionId
    return containmentId

/-- Write the records of all layers. -/
def draft (layer : IdentityLayer) (baseline : Option BaselineLayer) (sync : Option SyncBase)
    (compiled : CompiledSet) (vocabularySha256 : Digest) : Drafting Unit := do
  let source ← addNode configSource layer.source ∅
  let _ ← addNode configSource vocabularySourceKey (strAttrs [(attrSha256, hex vocabularySha256)])
  let roles ← compiled.nodes.foldlM addCompiled ∅
  let sectionId ← addBindingsSection layer source
  let aliases ← aliasNames layer
  let subjects := sortByKey (fun s ↦ s.uid.toNat) layer.subjects
  let _ ← subjects.foldlM (addSubject layer roles aliases sectionId) none
  Sync.build source layer.source sync
  Baseline.build baseline

/-- Report the errors of a graph as errors of its layers. -/
def ofGraphError {α : Type} : Outcome GraphError α → Outcome IdentityError α
  | .ok a => .ok a
  | .error (.error e) => Outcome.fail (.graph e)
  | .error .panicked => Outcome.panicked

/-- The graph of the layers. -/
def build (layer : IdentityLayer) (baseline : Option BaselineLayer) (sync : Option SyncBase)
    (compiled : CompiledSet) (vocabularySha256 : Digest) (revision : UInt64)
    (initiator : ProvenanceKind) : Outcome IdentityError Graph :=
  let start : Draft := ⟨revision, ⟨initiator, revision⟩, layer.label, [], []⟩
  match draft layer baseline sync compiled vocabularySha256 start with
  | .error e => Outcome.fail e
  | .ok (_, d) => do
    let b : GraphBuilder := ⟨.kernel, revision, d.nodes, d.edges⟩
    let g ← ofGraphError (b.build kernelSchema compiled)
    match compiled.nodes.find? fun c ↦ c.label ≠ layer.label with
    | some c => Outcome.fail (.labelMismatch c.key)
    | none => return g

end Identity

/-! ### Reading the records back -/

namespace Baseline

def ambiguous (n : NodeRecord) (what : String) : IdentityError := .baselineAmbiguous n.id.val what

def bad (n : NodeRecord) (attr : String) : IdentityError := .baselineAttr n.id.val attr

def strAttr (n : NodeRecord) (attr : String) : Except IdentityError String :=
  match n.attrs[attr]? with
  | some (.str s) => .ok s
  | _ => .error (bad n attr)

/-- The only node of a kind, if there is one. -/
def only (g : Graph) (kind : NodeKind) (many : String) : Except IdentityError (Option NodeRecord) :=
  match g.nodes.filter fun n ↦ n.kind = kind with
  | [] => .ok none
  | [first] => .ok (some first)
  | _ :: second :: _ => .error (ambiguous second many)

/-- Nodes that only a baseline has. -/
def isBaselineNode (n : NodeRecord) : Bool :=
  n.kind ∈ [instanceKind, classificationSystem, level] ||
    (n.kind = sectionKind && (sectionName n).isSome)

/-- Read one section of the baseline. -/
def readSection (g : Graph) (source : NodeRecord) (sections : Std.ExtTreeMap String String compare)
    (n : NodeRecord) : Except IdentityError (Std.ExtTreeMap String String compare) :=
  match sectionName n with
  | none => .ok sections
  | some name =>
    if name = "" then .error (ambiguous n "baseline section without a name")
    else if (g.outEdges n.id partOf).map EdgeRecord.target ≠ [source.id] then
      .error (ambiguous n "baseline section outside the baseline source")
    else do
      let value ← strAttr n attrValue
      return sections.insert name value

def readMovedFrom (source : NodeRecord) : Except IdentityError (Option String) :=
  match source.attrs[attrMovedFrom]? with
  | none => .ok none
  | some (.str s) => .ok (some s)
  | some _ => .error (bad source attrMovedFrom)

def readInstance (g : Graph) (source : NodeRecord) : Except IdentityError NodeRecord := do
  match ← only g instanceKind "more than one instance" with
  | some n => if n.key = instanceKey then return n else .error (ambiguous n "no instance")
  | none => .error (ambiguous source "no instance")

def readSystem (g : Graph) (inst : NodeRecord) : Except IdentityError NodeRecord := do
  match ← only g classificationSystem "more than one classification system" with
  | none => .error (ambiguous inst "no classification system")
  | some system =>
    if (g.outEdges inst.id declares).length ≠ 1 then
      .error (ambiguous inst "instance declares no single system")
    else return system

def readCeiling (g : Graph) (system : NodeRecord) : Except IdentityError String := do
  match ← only g level "more than one level" with
  | none => .error (ambiguous system "no level")
  | some lvl =>
    match (Text.stripPrefix system.key lvl.key).bind (Text.stripPrefix ":") with
    | some ceiling =>
      if ceiling ≠ "" ∧ (g.outEdges lvl.id levelOf).length = 1 then return ceiling
      else .error (ambiguous lvl "level outside the declared system")
    | none => .error (ambiguous lvl "level outside the declared system")

/-- The baseline a graph holds. -/
def extract (g : Graph) : Except IdentityError (Option BaselineLayer) :=
  match g.lookup configSource baselineSourceKey with
  | none =>
    match g.nodes.find? isBaselineNode with
    | some n => .error (ambiguous n "baseline node without a baseline source")
    | none => .ok none
  | some source => do
    let digest ← strAttr source attrSha256
    match unhex digest with
    | none => .error (bad source attrSha256)
    | some sha256 => do
      let movedFrom ← readMovedFrom source
      let sections ←
        (g.nodes.filter fun n ↦ n.kind = sectionKind).foldlM (readSection g source) ∅
      if sections.isEmpty then .error (ambiguous source "baseline without a section")
      else do
        let inst ← readInstance g source
        let system ← readSystem g inst
        let ceiling ← readCeiling g system
        return some ⟨sections, system.key, ceiling, sha256, movedFrom⟩

end Baseline

namespace Sync

def ambiguous (n : NodeRecord) (what : String) : IdentityError := .syncAmbiguous n.id.val what

def attr (n : NodeRecord) (attr : String) : Except IdentityError String :=
  match n.attrs[attr]? with
  | some (.str s) => if s ≠ "" then .ok s else .error (.syncAttr n.id.val attr)
  | _ => .error (.syncAttr n.id.val attr)

/-- The sync state at a node, which belongs to the policy source. -/
def read (g : Graph) (n source : NodeRecord) : Except IdentityError SyncBase :=
  if n.key ≠ syncKey source.key then .error (ambiguous n "sync base keyed for another source")
  else if (g.outEdges n.id partOf).map EdgeRecord.target ≠ [source.id] then
    .error (ambiguous n "sync base outside the policy source")
  else do
    let base ← attr n attrBase
    let live ← attr n attrLive
    let conflicts ← attr n attrConflicts
    if explicit base ≠ explicit live then
      .error (ambiguous n "sync base live and base disagree on explicit bindings")
    else if explicit live ≠ (g.lookup sectionKind (bindingsSectionKey source.key)).isSome then
      .error (ambiguous n "sync base and bindings section disagree on explicit bindings")
    else return ⟨base, live, conflicts⟩

/-- The sync state a graph holds. -/
def extract (g : Graph) (source : Option NodeRecord) : Except IdentityError (Option SyncBase) :=
  match g.nodes.filter fun n ↦ n.kind = syncBaseKind with
  | [] => .ok none
  | [n] =>
    match source with
    | none => .error (ambiguous n "sync base without a policy source")
    | some source => do return some (← read g n source)
  | _ :: second :: _ => .error (ambiguous second "more than one sync base")

end Sync

namespace Identity

def strAttr (n : NodeRecord) (attr : String) : Except IdentityError String :=
  match n.attrs[attr]? with
  | some (.str s) => .ok s
  | _ => .error (.badAttr n.id.val attr)

def digestAttr (n : NodeRecord) : Except IdentityError Digest := do
  match unhex (← strAttr n attrSha256) with
  | some d => return d
  | none => .error (.badAttr n.id.val attrSha256)

/-- The vocabulary digest and the policy source, from the source nodes. -/
def readSource (found : Option Digest × Option NodeRecord) (n : NodeRecord) :
    Except IdentityError (Option Digest × Option NodeRecord) :=
  if n.key = vocabularySourceKey then do return (some (← digestAttr n), found.2)
  else if n.key = baselineSourceKey then .ok found
  else
    match found.2 with
    | some _ => .error (.ambiguous n.id.val "more than one policy source")
    | none => .ok (found.1, some n)

/-- The uid of a subject node, which its key repeats. -/
def subjectUid (n : NodeRecord) : Except IdentityError UInt32 :=
  match n.attrs[attrUid]? with
  | some (.u64 u) =>
    if u.toNat < 2 ^ 32 ∧ n.key = subjectKey u.toUInt32 then .ok u.toUInt32
    else .error (.badAttr n.id.val attrUid)
  | _ => .error (.badAttr n.id.val attrUid)

def insertAlias (name : String) (uid : UInt32) (aliases : Claims) (alias' : String) :
    Except IdentityError Claims :=
  if alias' = "" ∨ alias' = name ∨ alias' ∈ aliases then .error (.badAlias alias')
  else .ok (aliases.insert alias' uid)

/-- The aliases a contained subject lists. -/
def readAliases (n : NodeRecord) (name : String) (uid : UInt32) (isContained : Bool)
    (aliases : Claims) : Except IdentityError Claims :=
  if attrAliases ∈ n.attrs then do
    let names ← strAttr n attrAliases
    if ¬isContained then
      .error (.ambiguous n.id.val "aliases on a subject that is not contained")
    else (Text.split ',' names).foldlM (insertAlias name uid) aliases
  else .ok aliases

/-- The subjects read so far, the aliases, and the uids without a role. -/
structure Subjects where
  subjects : List SubjectEntry
  aliases : Claims
  unbound : List UInt32

/-- Read one subject. -/
def readSubject (g : Graph) (source : Option NodeRecord) (out : Subjects) (n : NodeRecord) :
    Except IdentityError Subjects := do
  let uid ← subjectUid n
  if source.isNone then .error (.ambiguous n.id.val "subject without a policy source")
  else if 1 < (g.outEdges n.id binds).length then
    .error (.ambiguous n.id.val "more than one binds edge")
  else do
    let name ← strAttr n attrName
    let isContained := !(g.outEdges n.id contained).isEmpty
    let aliases ← readAliases n name uid isContained out.aliases
    let role :=
      if isContained then some adversary
      else (g.outEdges n.id binds).head?.bind fun e ↦ (g.node e.target).map NodeRecord.key
    match role with
    | some role => return { out with subjects := out.subjects ++ [⟨uid, name, role⟩], aliases }
    | none => return { out with unbound := out.unbound ++ [uid], aliases }

/-- A contained subject's own name must not be an alias as well. -/
def aliasClash (aliases : Claims) (s : SubjectEntry) : Bool :=
  s.role = adversary && aliases.contains s.name && s.name ≠ subjectKey s.uid

/-- The digest of the bindings section, if there is one. -/
def readBindings (g : Graph) (sourceKey : String) : Except IdentityError (Option Digest) :=
  match g.lookup sectionKind (bindingsSectionKey sourceKey) with
  | some sec => do return some (← digestAttr sec)
  | none => .ok none

/-- The layers a graph holds. -/
def extract (g : Graph) : Except IdentityError Extracted := do
  let (vocabularySha256, source) ←
    (g.nodes.filter fun n ↦ n.kind = configSource).foldlM readSource (none, none)
  let sourceKey := source.elim "" NodeRecord.key
  let bindingsSha256 ← readBindings g sourceKey
  let out ← (g.nodes.filter fun n ↦ n.kind = subjectKind).foldlM (readSubject g source) ⟨[], ∅, []⟩
  let subjects := sortByKey (fun s ↦ s.uid.toNat) out.subjects
  match subjects.find? (aliasClash out.aliases) with
  | some s => .error (.badAlias s.name)
  | none => do
    let baseline ← Baseline.extract g
    let sync ← Sync.extract g source
    return {
      layer := ⟨sourceKey, source.elim "" NodeRecord.label, bindingsSha256, subjects, out.aliases⟩
      vocabularySha256
      unbound := sortByKey UInt32.toNat out.unbound
      baseline
      sync }

/-! ### What a change drops -/

inductive ReleaseCause
  | notListed
  | nameNowResolvesTo (uid : UInt32)
  | boundAs (role : String)
  | bindingsEmpty
  /-- A live edit by this initiator ended it. -/
  | live (initiator : ProvenanceKind)

/-- A containment that a change ends. -/
structure Released where
  uid : UInt32
  name : String
  cause : ReleaseCause

/-- Why a contained subject is not contained any more. -/
def release (persisted next : IdentityLayer) (fileListsNobody : Bool) (s : SubjectEntry) :
    Released :=
  let moved := (persisted.claims.toList.filter fun c ↦ c.2 = s.uid).findSome? fun c ↦
    (next.claims[c.1]?).map fun uid ↦ (c.1, uid)
  if fileListsNobody then ⟨s.uid, s.name, .bindingsEmpty⟩
  else
    match moved with
    | some (name, uid) => ⟨s.uid, name, .nameNowResolvesTo uid⟩
    | none =>
      match next.subjects.find? fun e ↦ e.uid = s.uid with
      | some bound => ⟨s.uid, s.name, .boundAs bound.role⟩
      | none => ⟨s.uid, s.name, .notListed⟩

/-- The subjects contained in `persisted` and not in `next`, in uid order. -/
def released (persisted next : IdentityLayer) (fileListsNobody : Bool) : List Released :=
  let isContained (uid : UInt32) : Bool :=
    next.subjects.any fun e ↦ e.uid == uid && e.role == adversary
  let gone := persisted.subjects.filter fun s ↦ s.role = adversary && !isContained s.uid
  sortByKey (fun r ↦ r.uid.toNat) (gone.map (release persisted next fileListsNobody))

def bindingsMissing : String :=
  "bindings.yaml is missing but the store holds explicit bindings; restore it, or run sudo " ++
    "maknae reseed to return to principal-as-admin"

def bindingsKeyDropped : String :=
  "bindings.yaml has no bindings: key but the store holds explicit bindings; restore the " ++
    "bindings: block, or run sudo maknae reseed to return to principal-as-admin"

def bindingsNotMoved : String :=
  "the store holds explicit bindings from authz.yaml; paste the bindings: block into " ++
    "/etc/maknae/bindings.yaml"

/-- The refusal, if the file would drop explicit bindings that root has not written into
`bindings.yaml`. -/
def dropsExplicitBindings (persisted file : IdentityLayer) (fileMissing : Bool) : Option String :=
  if persisted.bindingsSha256.isNone then none
  else if (OsPath.ofString persisted.source).fileName ≠ some (.ofString "bindings.yaml") ∧
      file.bindingsSha256.isNone then some bindingsNotMoved
  else if fileMissing then some bindingsMissing
  else if file.bindingsSha256.isNone then some bindingsKeyDropped
  else none

end Identity

end Maknae.StateGraph
