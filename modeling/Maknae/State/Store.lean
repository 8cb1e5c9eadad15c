import Maknae.Config.BindingsSync
import Maknae.Foundation.Job
import Maknae.State.Anchor
import Maknae.State.Envelope
import Maknae.StateGraph.Format

/-!
# The store of the kernel's graph

The daemon keeps its graph in one sealed file of the state directory. At boot it loads the file, or
seeds a first one, and brings it up to date with the binary and root's files; while it runs,
reloads, accepts and live edits each put a new file in place. Every change is written ahead to the
audit trail, and every file that is in place is followed by a checkpoint.

All of this is code that works on a disk: each write can fail, can fail after it took effect, and
the process can end between any two writes. A `World` is the directory, the trail and the process.
It also holds the `chances` of the writes to come: every operation takes the next one, which says
how it goes, and a process without a chance left has ended. So one function covers every way its
writes can go, and every state the process can be stopped in is the end of a run with fewer chances.

A panic ends a run as a crash does. Errors keep the error that caused them, not its text.
-/

namespace Maknae.State

open StateGraph

/-! ### The world -/

/-- One record of the audit trail. -/
inductive Record
  | intentSeed (revision : UInt64) (authorized : Bool)
  | checkpoint (c : Checkpoint) (anchor : String)
  | intentMigrate (revision : UInt64) (source : Option Digest) (target : Digest)
      (unbound : List UInt32)
  | intentTransition (revision : UInt64) (initiator : String)
  | released (revision : UInt64) (released : Identity.Released)
  | baseline (revision : UInt64) (event : String)
  | sync (revision : UInt64) (event : String)
  /-- A record of another part of the daemon. -/
  | other (text : String)

/-- A write that took effect: a store file put in place, or a record in the trail. -/
inductive Deed
  | placed (graph : Graph) (file : List UInt8)
  | appended (record : Record)

/-- Root's reseed marker: not there, written by root, or something that is not to be trusted. -/
inductive Marker
  | absent
  | root
  | refused (cause : String)

/-- How an operation goes: it is done, it fails, or it takes effect and fails all the same. -/
inductive Fate
  | done
  | failed
  | landed
deriving DecidableEq, Repr

/-- What an operation meets: how it goes, the cause it reports, and the random bytes it draws. -/
structure Chance where
  fate : Fate
  cause : String
  draws : Draws

/-- The state directory, the audit trail and the process. -/
structure World where
  /-- The store file. -/
  store : Option (List UInt8)
  marker : Marker
  /-- The mirror of the bindings. -/
  mirror : Option (List UInt8)
  /-- Copies of rejected stores, by name. -/
  copies : Std.ExtTreeMap String (List UInt8) compare
  /-- Everything that took effect on the store and the trail, in order. -/
  history : List Deed
  /-- The revision of the store as this process last read or wrote it. -/
  floor : UInt64
  /-- The process has booted. -/
  booted : Bool
  /-- How the operations to come will go. -/
  chances : List Chance

/-- A fresh state directory and trail, and a process that has not started. -/
def World.fresh (marker : Marker) (chances : List Chance) : World :=
  ⟨none, marker, none, ∅, [], 0, false, chances⟩

/-- The provider, the wrapping key, and the reader of JSON text. -/
structure Setting where
  crypto : Crypto
  key : List UInt8
  parseJson : String → Option Config.Value

/-! ### Errors -/

inductive FormatCause
  | format (e : FormatError)
  | layers (e : IdentityError)
  | undecoded
deriving DecidableEq, Repr

inductive NewerCause
  | envelope (e : EnvelopeError)
  | format (e : FormatError)
deriving DecidableEq, Repr

inductive StoreError
  | storeFileRefused (cause : String)
  | io (cause : String)
  | envelope (e : EnvelopeError)
  | format (cause : FormatCause)
  | refused (reason : Refusal)
  | audit (cause : String)
  | newerStore (cause : NewerCause)
  | rejectedNameInUse (name cause : String)
  | vocabulary (cause : String)
  | identity (e : IdentityError)
  | staleRevision (store attempted : UInt64)
  | bindingsRefused (cause : String)
  | baselineUnseen (stored seen : Option String)
  | baselineUnrecorded
  | syncUnseen
  | syncBaseChanged
  | syncAbsent
  | syncUnrecorded
  | mirrorNotRemoved (cause : String)
deriving DecidableEq, Repr

/-- Why an operation of the store did not end: an error it reports, or the end of the process. -/
inductive Stop
  | failed (e : StoreError)
  | died

/-- Code that works on the world. -/
abbrev Run := Job Stop World

namespace Run

def fail {α : Type} (e : StoreError) : Run α := Job.stop (.failed e)

/-- A computation that does not touch the world. -/
def lift {α : Type} : Outcome StoreError α → Run α
  | .ok a => pure a
  | .error (.error e) => fail e
  | .error .panicked => Job.stop .died

def onlyIf (c : Bool) (x : Run Unit) : Run Unit := if c then x else pure ()

/-- The next chance. -/
def chance : Run Chance := fun w ↦
  match w.chances with
  | [] => (.error .died, w)
  | c :: rest => (.ok c, { w with chances := rest })

/-- A write: it takes effect unless it fails, and reports a failure as `error`. -/
def write (error : String → StoreError) (effect : World → World) : Run Unit := do
  let c ← chance
  match c.fate with
  | .done => Job.change effect
  | .failed => fail (error c.cause)
  | .landed => do
    Job.change effect
    fail (error c.cause)

/-- Append a record to the audit trail. -/
def append (r : Record) : Run Unit :=
  write .audit fun w ↦ { w with history := w.history ++ [.appended r] }

end Run

open Run

/-- Rename the errors of a computation. -/
def mapError {ε α : Type} (f : ε → StoreError) : Outcome ε α → Outcome StoreError α
  | .ok a => .ok a
  | .error (.error e) => Outcome.fail (f e)
  | .error .panicked => Outcome.panicked

/-- A computation that reports errors and cannot panic. -/
def reported {ε α : Type} (f : ε → StoreError) : Except ε α → Outcome StoreError α
  | .ok a => .ok a
  | .error e => Outcome.fail (f e)

/-! ### The state directory -/

def maxStoreBytes : ℕ := 64 <<< 20

/-- The store file, if there is one. -/
def readStore : Run (Option (List UInt8)) := do
  let c ← chance
  let w ← Job.state
  match c.fate, w.store with
  | .done, none => return none
  | .done, some file =>
    if maxStoreBytes < file.length then fail (.storeFileRefused c.cause) else return some file
  | _, _ => fail (.storeFileRefused c.cause)

/-- Whether root's marker is there; the cause where it cannot be trusted. -/
def reseedMarker : Run (Except String Bool) := do
  let c ← chance
  let w ← Job.state
  match c.fate, w.marker with
  | .done, .absent => return .ok false
  | .done, .root => return .ok true
  | .done, .refused cause => return .error cause
  | _, _ => return .error c.cause

def removeMirror : Run Unit := write .mirrorNotRemoved fun w ↦ { w with mirror := none }

def removeMarker : Run Unit := write .io fun w ↦ { w with marker := .absent }

def setStoreRevision (revision : UInt64) : Run Unit :=
  Job.change fun w ↦ { w with floor := revision }

/-- Put a store file in place. The answer is the failure to make it durable, if there was one. -/
def publishStore (graph : Graph) (file : List UInt8) : Run (Option String) := do
  let place : World → World := fun w ↦
    { w with store := some file, history := w.history ++ [.placed graph file] }
  let c ← chance
  match c.fate with
  | .done => do
    Job.change place
    return none
  | .failed => fail (.io c.cause)
  | .landed => do
    Job.change place
    return some c.cause

/-- What a persisted store was sealed to. -/
structure Persisted where
  digest : Digest
  durabilityError : Option String

/-- Seal a graph, remove the mirror and put the file in place; the revision must advance. -/
def persist (setting : Setting) (graph : Graph) : Run Persisted := do
  let w ← Job.state
  if graph.revision ≤ w.floor then fail (.staleRevision w.floor graph.revision)
  else do
    removeMirror
    -- encoding can panic, it reports no error
    let bytes ← lift (mapError (fun e ↦ .identity (.graph e)) (encode graph))
    let c ← chance
    match sealFile setting.crypto c.draws bytes setting.key with
    | .error e => fail (.envelope e)
    | .ok file => do
      let durabilityError ← publishStore graph file
      setStoreRevision graph.revision
      return ⟨setting.crypto.sha256 file, durabilityError⟩

def rejectedOpening : String := "kernel.graph.rejected."

/-- Keep a copy of a rejected store. -/
def preserve (name : String) (bytes : List UInt8) : Run String := do
  let c ← chance
  let w ← Job.state
  match c.fate, w.copies[name]? with
  | .done, none => do
    write .io fun w ↦ { w with copies := w.copies.insert name bytes }
    return name
  | .done, some existing =>
    if existing = bytes then return s!"{name} (already preserved)"
    else fail (.rejectedNameInUse name "it holds other bytes")
  | _, _ => fail (.rejectedNameInUse name c.cause)

/-! ### Decoding -/

def classifyEnvelope : EnvelopeError → StoreError
  | .unsupportedVersion v =>
    if envelopeVersion < v then .newerStore (.envelope (.unsupportedVersion v))
    else .envelope (.unsupportedVersion v)
  | .unknownAead a =>
    if aeadAes256Gcm < a then .newerStore (.envelope (.unknownAead a))
    else .envelope (.unknownAead a)
  | .unknownWrap v =>
    if wrapAes256Gcm < v then .newerStore (.envelope (.unknownWrap v))
    else .envelope (.unknownWrap v)
  | e => .envelope e

def classifyFormat : FormatError → StoreError
  | .unsupportedFormatVersion v =>
    if formatVersion < v then .newerStore (.format (.unsupportedFormatVersion v))
    else .format (.format (.unsupportedFormatVersion v))
  | .unsupportedSchemaVersion found expected =>
    if expected < found then .newerStore (.format (.unsupportedSchemaVersion found expected))
    else .format (.format (.unsupportedSchemaVersion found expected))
  | e => .format (.format e)

/-- A store file that was read. -/
structure Decoded where
  graph : Graph
  stored : CompiledSet
  extracted : Extracted
  facts : StoreFacts

def decodeStore (setting : Setting) (file : List UInt8) : Outcome StoreError Decoded := do
  let plain ← reported classifyEnvelope (openFile setting.crypto file setting.key)
  let (graph, stored) ← mapError classifyFormat (decodeStoredCompiled plain .kernel kernelSchema)
  let extracted ← reported (fun e ↦ .format (.layers e)) (Identity.extract graph)
  return ⟨graph, stored, extracted, graph.revision, setting.crypto.sha256 file⟩

/-! ### The vocabulary -/

inductive Assessment
  | current
  | upgrade (source : Option Digest)
  | forged (why : String)
deriving DecidableEq

/-- Judge the compiled nodes of a store: they must hash to the digest it records, and that digest is
the binary's or names an older vocabulary. -/
def assessVocabulary (crypto : Crypto) (storedDigest : Option Digest) (stored : CompiledSet)
    (binaryDigest : Digest) : Outcome StoreError Assessment :=
  match stored.canonicalBytes with
  | .error .panicked => Outcome.panicked
  | .error (.error _) => .ok (.forged "the stored compiled nodes are not canonical")
  | .ok bytes =>
    let nodes := crypto.sha256 bytes
    match storedDigest with
    | none =>
      if stored.nodes.isEmpty then .ok (.upgrade none)
      else .ok (.forged "compiled nodes are stored without a vocabulary digest")
    | some claimed =>
      if nodes ≠ claimed ∧ claimed = binaryDigest then
        .ok (.forged "compiled nodes differ from the digest they claim")
      else if nodes ≠ claimed then
        .ok (.forged "the stored digest does not cover the stored compiled nodes")
      else if claimed = binaryDigest then .ok .current
      else .ok (.upgrade (some claimed))

/-! ### What boot brings and reports -/

/-- What the binary and root's files bring to a boot. -/
structure BootInputs where
  compiled : CompiledSet
  vocabularySha256 : Digest
  identity : IdentityLayer
  unresolvedAdversaries : List String
  bindingsMissing : Bool
  bindingsListsNobody : Bool
  /-- The baseline this boot runs and persists. -/
  baseline : BaselineLayer
  /-- The digest of the accepted baseline that was read before. -/
  acceptedSeen : Option Digest
  baselineEvents : List String
  /-- The sync state this boot persists. -/
  sync : SyncBase
  /-- The sync state it was merged against. -/
  syncSeen : Option SyncBase
  syncEvents : List String
  syncKind : Config.SyncKind

inductive BootOutcome
  | seeded (authorized : Bool) (rejected : Option String)
  | loaded (state : AnchorState)

structure Migration where
  source : Option Digest
  target : Digest
  unbound : List UInt32

structure BootReport where
  revision : UInt64
  digest : Digest
  outcome : BootOutcome
  graph : Graph
  markerIgnored : Option String := none
  migration : Option Migration := none
  identityTransition : Bool := false
  baselineTransition : Bool := false
  released : List Identity.Released := []
  durabilityError : Option String := none

/-- The graph of layers under the binary's vocabulary. -/
def buildGraph (inputs : BootInputs) (layer : IdentityLayer) (baseline : Option BaselineLayer)
    (sync : Option SyncBase) (revision : UInt64) (initiator : ProvenanceKind) :
    Outcome StoreError Graph :=
  mapError .identity (Identity.build layer baseline sync inputs.compiled inputs.vocabularySha256
    revision initiator)

def nextRevision (revision : UInt64) : Outcome StoreError UInt64 :=
  match checkedSucc revision with
  | some next => .ok next
  | none => Outcome.fail (.refused .revisionExhausted)

def sortedLayer (layer : IdentityLayer) : IdentityLayer :=
  { layer with subjects := sortByKey (fun s ↦ s.uid.toNat) layer.subjects }

/-- Who a boot transition is attributed to. -/
def transitionInitiator (kind : Config.SyncKind) (identityChanged baselineChanged stale : Bool) :
    ProvenanceKind :=
  if !(identityChanged || baselineChanged || stale) && (kind = .created || kind = .adopted) then
    .kernel
  else .rootFile

def initiatorName : ProvenanceKind → String
  | .compiled => "compiled"
  | .seed => "seed"
  | .rootFile => "root-file"
  | .operator => "operator"
  | .kernel => "kernel"

/-! ### Planning a load -/

/-- The layer without the subjects whose role is gone, and their uids. -/
def dropVanished (layer : IdentityLayer) (compiled : CompiledSet) : IdentityLayer × List UInt32 :=
  let lives (s : SubjectEntry) : Bool := (compiled.get roleKind s.role).isSome
  let subjects := layer.subjects.filter lives
  ({ layer with
      subjects
      aliases := layer.aliases.filter fun _ u ↦
        subjects.any fun s ↦ s.uid == u && s.role == adversary },
    (layer.subjects.filter fun s ↦ !lives s).map SubjectEntry.uid)

/-- The stored layer carried across a change of vocabulary. A store without a policy source takes
that of the file. -/
def migratedLayer (stored file : IdentityLayer) (compiled : CompiledSet) :
    IdentityLayer × List UInt32 :=
  let layer := if stored.source = "" then ⟨file.source, "", none, [], ∅⟩ else stored
  dropVanished { layer with label := file.label } compiled

/-- The store is what its layers would build again. -/
def isCanonical (inputs : BootInputs) (graph : Graph) (layer : IdentityLayer)
    (baseline : Option BaselineLayer) (sync : Option SyncBase) : Outcome StoreError Bool :=
  match graph.lookup configSource layer.source with
  | none => .ok false
  | some n =>
    match buildGraph inputs layer baseline sync graph.revision n.provenance.kind with
    | .ok rebuilt => .ok (rebuilt = graph)
    | .error (.error _) => .ok false
    | .error .panicked => Outcome.panicked

/-- Refuse a store whose accepted state is not the one the boot was prepared for. -/
def checkSeen (inputs : BootInputs) (extracted : Extracted) : Outcome StoreError Unit :=
  let dropped :=
    if extracted.sync.isNone then
      Identity.dropsExplicitBindings extracted.layer inputs.identity inputs.bindingsMissing
    else none
  match dropped with
  | some cause => Outcome.fail (.bindingsRefused cause)
  | none =>
    if extracted.baseline.map BaselineLayer.sha256 ≠ inputs.acceptedSeen then
      Outcome.fail (.baselineUnseen (extracted.baseline.map fun b ↦ hex b.sha256)
        (inputs.acceptedSeen.map hex))
    else if extracted.sync ≠ inputs.syncSeen then Outcome.fail .syncUnseen
    else .ok ()

/-- A graph that carries the store across a change of vocabulary. -/
structure PlannedMigration where
  migration : Migration
  layer : IdentityLayer
  revision : UInt64
  next : Graph

def planUpgrade (inputs : BootInputs) (decoded : Decoded) :
    Assessment → Outcome StoreError (Option PlannedMigration)
  | .forged why => Outcome.fail (.vocabulary why)
  | .current => .ok none
  | .upgrade source => do
    let extracted := decoded.extracted
    let (layer, unbound) := migratedLayer extracted.layer inputs.identity inputs.compiled
    let unbound := sortByKey UInt32.toNat (unbound ++ extracted.unbound)
    let revision ← nextRevision decoded.facts.revision
    let next ← buildGraph inputs layer extracted.baseline extracted.sync revision .kernel
    return some ⟨⟨source, inputs.vocabularySha256, unbound⟩, layer, revision, next⟩

def planMigration (setting : Setting) (inputs : BootInputs) (decoded : Decoded) :
    Outcome StoreError (Option PlannedMigration) := do
  let assessment ← assessVocabulary setting.crypto decoded.extracted.vocabularySha256 decoded.stored
    inputs.vocabularySha256
  planUpgrade inputs decoded assessment

/-- What a load is going to do, decided before anything is written. -/
structure LoadPlan where
  migration : Option PlannedMigration
  /-- The stored layer, migrated if need be. -/
  layer : IdentityLayer
  /-- The layer of the file, with what is carried forward. -/
  file : IdentityLayer
  identityChanged : Bool
  baselineChanged : Bool
  initiator : ProvenanceKind
  transition : Option Graph

/-- A store without a migration is stale if its layers would build another graph. -/
def isStale (inputs : BootInputs) (decoded : Decoded) (layer : IdentityLayer) :
    Option PlannedMigration → Outcome StoreError Bool
  | some _ => .ok false
  | none => do
    let extracted := decoded.extracted
    return !(← isCanonical inputs decoded.graph layer extracted.baseline extracted.sync)

/-- The graph of a boot that changes something. -/
def planTransition (inputs : BootInputs) (changed : Bool) (file : IdentityLayer) (revision : UInt64)
    (initiator : ProvenanceKind) : Outcome StoreError (Option Graph) :=
  if changed then do
    let revision ← nextRevision revision
    let next ← buildGraph inputs file (some inputs.baseline) (some inputs.sync) revision initiator
    return some next
  else .ok none

def planLoad (setting : Setting) (inputs : BootInputs) (decoded : Decoded) :
    Outcome StoreError LoadPlan := do
  let extracted := decoded.extracted
  checkSeen inputs extracted
  let migration ← planMigration setting inputs decoded
  let layer := migration.elim extracted.layer PlannedMigration.layer
  let revision := migration.elim decoded.facts.revision PlannedMigration.revision
  let file := (carryForward inputs.identity inputs.unresolvedAdversaries layer).1
  let stale ← isStale inputs decoded layer migration
  let identityChanged : Bool := stale || sortedLayer layer ≠ sortedLayer file
  let baselineChanged : Bool := extracted.baseline ≠ some inputs.baseline
  if baselineChanged && inputs.baselineEvents.isEmpty then Outcome.fail .baselineUnrecorded
  else do
    let syncChanged : Bool := extracted.sync ≠ some inputs.sync
    let initiator :=
      transitionInitiator inputs.syncKind (identityChanged && !stale) baselineChanged stale
    let transition ← planTransition inputs (identityChanged || baselineChanged || syncChanged) file
      revision initiator
    return ⟨migration, layer, file, identityChanged, baselineChanged, initiator, transition⟩

/-! ### Writing -/

/-- Write the checkpoint of a store that is in place. -/
def checkpoint (revision : UInt64) (digest : Digest) (anchor : String) : Run Unit :=
  append (.checkpoint ⟨revision, digest⟩ anchor)

/-- Write ahead the containments a change ends, one record each. -/
def auditReleased (revision : UInt64) (released : List Identity.Released) : Run Unit :=
  released.forM fun r ↦ append (.released revision r)

def auditBaseline (revision : UInt64) (events : List String) : Run Unit :=
  events.forM fun e ↦ append (.baseline revision e)

def auditSync (revision : UInt64) (events : List String) : Run Unit :=
  events.forM fun e ↦ append (.sync revision e)

/-- Put a planned migration in place, and report it. -/
def applyMigration (setting : Setting) (report : BootReport) :
    Option PlannedMigration → Run BootReport
  | none => pure report
  | some m => do
    append (.intentMigrate m.next.revision m.migration.source m.migration.target
      m.migration.unbound)
    let persisted ← persist setting m.next
    checkpoint m.next.revision persisted.digest "migrated"
    return { report with
      revision := m.next.revision
      digest := persisted.digest
      durabilityError := persisted.durabilityError
      graph := m.next
      migration := some m.migration }

/-- Put a planned transition in place, and report it. -/
def applyTransition (setting : Setting) (inputs : BootInputs) (plan : LoadPlan)
    (report : BootReport) : Option Graph → Run BootReport
  | none => pure report
  | some next => do
    let released := Identity.released plan.layer plan.file inputs.bindingsListsNobody
    onlyIf (!released.isEmpty) (auditReleased next.revision released)
    onlyIf plan.baselineChanged (auditBaseline next.revision inputs.baselineEvents)
    onlyIf (!inputs.syncEvents.isEmpty) (auditSync next.revision inputs.syncEvents)
    append (.intentTransition next.revision (initiatorName plan.initiator))
    let persisted ← persist setting next
    checkpoint next.revision persisted.digest "transitioned"
    return { report with
      revision := next.revision
      digest := persisted.digest
      durabilityError := persisted.durabilityError
      graph := next
      identityTransition := plan.identityChanged
      baselineTransition := plan.baselineChanged
      released }

/-- Take a store that was read, and bring it up to date. -/
def load (setting : Setting) (state : AnchorState) (decoded : Decoded) (inputs : BootInputs) :
    Run BootReport := do
  let plan ← lift (planLoad setting inputs decoded)
  let facts := decoded.facts
  setStoreRevision facts.revision
  checkpoint facts.revision facts.digest state.asStr
  let report : BootReport :=
    { revision := facts.revision, digest := facts.digest, outcome := .loaded state
      graph := decoded.graph }
  let report ← applyMigration setting report plan.migration
  applyTransition setting inputs plan report plan.transition

/-- The store a seed replaces. -/
inductive Prior
  | absent
  | readable (file : List UInt8) (nowUnix : UInt64)

/-- Keep the store that a seed replaces. -/
def preservePrior (setting : Setting) : Prior → Run (Option String)
  | .absent => pure none
  | .readable bytes nowUnix => do
    let tag := String.ofList (((setting.crypto.sha256 bytes).toList.take 8).flatMap hexByte)
    return some (← preserve s!"{rejectedOpening}{nowUnix}.{tag}" bytes)

/-- Put a first store in place, or one that root asked for. -/
def seed (setting : Setting) (revision : UInt64) (authorized : Bool) (prior : Prior)
    (inputs : BootInputs) : Run BootReport := do
  if !authorized && inputs.acceptedSeen.isSome then
    fail (.baselineUnseen none (inputs.acceptedSeen.map hex))
  else if inputs.baselineEvents.isEmpty then fail .baselineUnrecorded
  else do
    let graph ← lift (buildGraph inputs inputs.identity (some inputs.baseline) (some inputs.sync)
      revision .seed)
    append (.intentSeed revision authorized)
    auditBaseline revision inputs.baselineEvents
    let rejected ← preservePrior setting prior
    let persisted ← persist setting graph
    onlyIf authorized removeMarker
    checkpoint revision persisted.digest (if authorized then "reseeded" else "seeded")
    return {
      revision
      digest := persisted.digest
      outcome := .seeded authorized rejected
      graph
      durabilityError := persisted.durabilityError }

/-- What boot knows of the store file: the store it replaces if it seeds, and what was decoded. -/
def readPrior (setting : Setting) (authorized : Bool) (nowUnix : UInt64) :
    Run (Prior × Option Decoded) := do
  match ← readStore with
  | none => return (.absent, none)
  | some file =>
    match decodeStore setting file with
    | .ok decoded => return (.readable file nowUnix, some decoded)
    | .error (.error e) => if authorized then return (.readable file nowUnix, none) else fail e
    | .error .panicked => Job.stop .died

/-- Do what was decided of the store. -/
def dispatch (setting : Setting) (inputs : BootInputs) (prior : Prior) :
    BootAction → Option Decoded → Run BootReport
  | .refuse reason, _ => fail (.refused reason)
  | .load state, some decoded => load setting state decoded inputs
  | .load _, none => fail (.format .undecoded)
  | .seedFirstBoot, _ => seed setting 1 false .absent inputs
  | .seedAuthorized revision, _ => seed setting revision true prior inputs

/-- Boot from the store, given the newest checkpoint of the audit trail. -/
def boot (setting : Setting) (newest : Option Checkpoint) (nowUnix : UInt64) (inputs : BootInputs) :
    Run BootReport := do
  let marker ← reseedMarker
  let authorized := marker.toOption.getD false
  let markerIgnored := match marker with
    | .ok _ => none
    | .error cause => some cause
  let (prior, loaded) ← readPrior setting authorized nowUnix
  let report ← dispatch setting inputs prior
    (assess (loaded.map Decoded.facts) newest authorized) loaded
  return { report with markerIgnored }

/-! ### Commits -/

/-- What a commit may do to the sync state. -/
inductive SyncRule
  | free
  | unchanged
  | baseKept

/-- What a commit carries besides its graph. -/
structure Transition where
  released : List Identity.Released
  baselineEvents : List String
  syncEvents : List String
  initiator : String
  rule : SyncRule

/-- The conflicts lose only entries whose roles the edit changed. -/
def dropsOnlyEditedEntries (setting : Setting) (stored proposed : SyncBase) : Bool :=
  match Config.conflictsFromCanonical setting.parseJson stored.conflicts,
    Config.conflictsFromCanonical setting.parseJson proposed.conflicts,
    Config.Section.fromCanonical setting.parseJson stored.live,
    Config.Section.fromCanonical setting.parseJson proposed.live with
  | some was, some now, some old, some new =>
    let dropped := was.filter fun e ↦ !now.contains e
    let changed := (old.entries ++ new.entries).filter fun e ↦ old.rolesOf e ≠ new.rolesOf e
    let changedListed : Config.EntrySet := .ofList (changed.filter fun e ↦ was.contains e) compare
    (now.toList.all fun e ↦ was.contains e) && !dropped.isEmpty && dropped = changedListed
  | _, _, _, _ => false

def checkSync (setting : Setting) (t : Transition) (stored proposed : Option SyncBase) :
    Outcome StoreError Unit :=
  match t.rule with
  | .free => .ok ()
  | .unchanged => if proposed ≠ stored then Outcome.fail .syncBaseChanged else .ok ()
  | .baseKept =>
    if t.syncEvents.isEmpty then Outcome.fail .syncUnrecorded
    else
      match stored, proposed with
      | some s, some p =>
        if s.base = p.base ∧ s.conflicts = p.conflicts then .ok ()
        else if s.base = p.base ∧ dropsOnlyEditedEntries setting s p then .ok ()
        else Outcome.fail .syncBaseChanged
      | _, _ => Outcome.fail .syncAbsent

structure Committed where
  revision : UInt64
  digest : Digest
  durabilityError : Option String
  checkpointError : Option StoreError

/-- Report an error instead of raising it; the end of the process is not an error. -/
def caught (x : Run Unit) : Run (Option StoreError) := fun w ↦
  match x w with
  | (.ok _, w') => (.ok none, w')
  | (.error (.failed e), w') => (.ok (some e), w')
  | (.error .died, w') => (.error .died, w')

/-- The layers of the store that is in place. -/
def storedLayers (setting : Setting) : Run (Option Extracted) := do
  match ← readStore with
  | none => return none
  | some file => do
    let decoded ← lift (decodeStore setting file)
    return some decoded.extracted

/-- The baseline would change without a record, or would be dropped. -/
def unrecorded (t : Transition) (stored proposed : Option BaselineLayer) : Bool :=
  if t.baselineEvents.isEmpty then proposed ≠ stored else proposed.isNone

/-- Write a transition ahead to the audit trail. -/
def writeAhead (revision : UInt64) (t : Transition) : Run Unit := do
  onlyIf (!t.released.isEmpty) (auditReleased revision t.released)
  onlyIf (!t.baselineEvents.isEmpty) (auditBaseline revision t.baselineEvents)
  onlyIf (!t.syncEvents.isEmpty) (auditSync revision t.syncEvents)
  append (.intentTransition revision t.initiator)

/-- Check a graph against the store it is to replace. -/
def checkTransition (setting : Setting) (next : Graph) (t : Transition) : Run Unit := do
  let w ← Job.state
  if next.revision ≤ w.floor then fail (.staleRevision w.floor next.revision)
  else do
    let proposed ← lift (reported .identity (Identity.extract next))
    let stored ← storedLayers setting
    if unrecorded t (stored.bind Extracted.baseline) proposed.baseline then fail .baselineUnrecorded
    else lift (checkSync setting t (stored.bind Extracted.sync) proposed.sync)

/-- Put a graph in place: check it, write ahead, publish, checkpoint. A failure after the publish is
reported, not raised. -/
def transition (setting : Setting) (next : Graph) (t : Transition) : Run Committed := do
  checkTransition setting next t
  writeAhead next.revision t
  let persisted ← persist setting next
  let checkpointError ← caught (checkpoint next.revision persisted.digest "transitioned")
  return ⟨next.revision, persisted.digest, persisted.durabilityError, checkpointError⟩

/-- A reload's commit. -/
def commit (setting : Setting) (next : Graph) (released : List Identity.Released)
    (syncEvents : List String) (initiator : String) : Run Committed :=
  transition setting next ⟨released, [], syncEvents, initiator, .free⟩

/-- An operator's accept: the commit that may change the accepted baseline. -/
def commitAccept (setting : Setting) (next : Graph) (events : List String) : Run Committed :=
  transition setting next ⟨[], events, [], initiatorName .operator, .unchanged⟩

/-- Who makes a live edit. -/
inductive LiveInitiator
  | operator
  | kernel

def LiveInitiator.provenance : LiveInitiator → ProvenanceKind
  | operator => .operator
  | kernel => .kernel

/-- A live edit: the base of the sync and the baseline are the stored ones. -/
def commitLive (setting : Setting) (next : Graph) (released : List Identity.Released)
    (events : List String) (initiator : LiveInitiator) : Run Committed :=
  transition setting next ⟨released, [], events, initiatorName initiator.provenance, .baseKept⟩

end Maknae.State
