import Maknae.Kernel.Mutation

/-!
# The exchange of mutation reports

Once an attempt is authorized the client carries it out and reports what it did, in batches. A
`MutationExchange` checks each report against the scope of the attempt: `validateReport` reserves a
transition, and `acknowledge` commits it after the report is in the audit trail. The exchange itself
authorizes nothing.

A `Run` is any interleaving of the two calls on one exchange. The scope never changes along a run
(`Run.scope_eq`), so every accepted report was checked against the scope the exchange was opened
with. Together with what `prepare` and `authorize` establish, `reported_effect_permitted` says that
every effect a client can get acknowledged is one the policy permits **by itself**, also below the
root of a recursive deletion, where only the root was ever decided.
-/

namespace Maknae.Kernel

open Except List Security Text

/-! ### Reports -/

structure MutationId where
  sessionId : UInt64
  intentSeq : UInt64
deriving DecidableEq, Repr

structure MutationLimits where
  maxEffects : UInt32
  maxDepth : UInt16
  deadlineMs : UInt64
  maxBytes : UInt64

structure ByteRange where
  start : UInt64
  stop : UInt64
deriving DecidableEq, Repr

structure LineSpan where
  first : UInt64
  last : UInt64
  completeLast : Bool
deriving DecidableEq, Repr

/-- One reported effect. Length, range and lines belong to reads only. -/
structure EffectEntry where
  path : String
  effect : ReportedEffect
  length : Option UInt64
  range : Option ByteRange
  lines : Option LineSpan
deriving DecidableEq, Repr

inductive ReportedFinish
  | success
  | osRefused
  | partialEffect
  | limitReached
  | pathChanged
  | unsupportedName
  | durabilityUnknown
deriving DecidableEq, Repr

inductive MutationReport
  | batch (id : MutationId) (firstIndex : UInt32) (effects : List EffectEntry)
  | finished (id : MutationId) (nextIndex : UInt32) (outcome : ReportedFinish)
      (stoppedAt : Option String)
deriving DecidableEq, Repr

/-- The effects a report claims. -/
def MutationReport.effects : MutationReport → List EffectEntry
  | batch _ _ effects => effects
  | finished _ _ _ _ => []

inductive ReportError
  | wrongId
  | wrongIndex
  | outOfScope
  | wrongEffect
  | limit
  | terminal
  | malformedPath
  | outstanding
  | foreignPending
  | inconsistentClaim

/-- A reserved transition of one exchange. -/
structure PendingReport where
  owner : ℕ
  nextIndex : UInt32
  terminal : Bool
  paths : List String

structure MutationAck where
  id : MutationId
  nextIndex : UInt32

/-- The kernel's side of an exchange. `owner` is the identity of the exchange, distinct for every
one that is opened. -/
structure MutationExchange where
  id : MutationId
  scope : MutationScope
  limits : MutationLimits
  readPage : Option PageRequest
  owner : ℕ
  nextIndex : UInt32
  outstanding : Bool
  terminal : Bool
  seen : Std.ExtTreeSet String compare

/-! ### Paths -/

/-- A path spelled one way only: absolute, within the length, no NUL and no empty, `.` or `..`
component. -/
def canonicalPath (path : String) : Except ReportError Unit :=
  if path.utf8ByteSize > maxMutationPathBytes then .error .limit
  else if !startsWithChar '/' path ∨ '\x00' ∈ path.toList then .error .malformedPath
  else if path = "/" then .ok ()
  else if (split '/' (drop 1 path)).any fun c ↦ c == "" || c == "." || c == ".." then
    .error .malformedPath
  else .ok ()

/-- The names of `path` below `root`, as a text; none when the path is not below it. -/
def suffixBelow (root path : String) : Option String :=
  if path = root then some ""
  else if root = "/" then some (drop 1 path)
  else (stripPrefix root path).bind (stripPrefix "/")

/-- The path is one the scope covers. -/
def validatePath (scope : MutationScope) (limits : MutationLimits) (path : String) :
    Except ReportError Unit := do
  canonicalPath path
  match scope with
  | .exact expected _ => if path ≠ expected then .error .outOfScope else .ok ()
  | .recursiveDelete root =>
    match suffixBelow root path with
    | none => .error .outOfScope
    | some suffix =>
      let relativeDepth := if suffix = "" then 0 else (split '/' suffix).length
      if relativeDepth > limits.maxDepth.toNat then .error .limit else .ok ()
  | .directories paths => if paths.any (· == path) then .ok () else .error .outOfScope

/-! ### Opening -/

def isRead : MutationScope → Bool
  | .exact _ .readFile => true
  | _ => false

/-- The second of two consecutive directories is the first with one name added. -/
def consecutive (a b : String) : Except ReportError Unit :=
  match if a = "/" then some (drop 1 b) else (stripPrefix a b).bind (stripPrefix "/") with
  | none => .error .outOfScope
  | some suffix => if suffix = "" ∨ '/' ∈ suffix.toList then .error .outOfScope else .ok ()

/-- Every two neighbours of a list pass the check. -/
def checkWindows (check : String → String → Except ReportError Unit) :
    List String → Except ReportError Unit
  | a :: b :: rest => do
    check a b
    checkWindows check (b :: rest)
  | _ => .ok ()

/-- The scope is one an exchange can be opened with. -/
def checkScope (scope : MutationScope) (limits : MutationLimits) : Except ReportError Unit :=
  match scope with
  | .exact path _ => canonicalPath path
  | .recursiveDelete root => canonicalPath root
  | .directories paths =>
    if paths.isEmpty then .error .outOfScope
    else if paths.length > limits.maxDepth.toNat then .error .limit
    else do
      paths.forM canonicalPath
      checkWindows consecutive paths

namespace MutationExchange

/-- Open an exchange. -/
def «open» (id : MutationId) (scope : MutationScope) (limits : MutationLimits)
    (readPage : Option PageRequest) (owner : ℕ) : Except ReportError MutationExchange :=
  if limits.maxEffects = 0 ∨ limits.maxEffects > maxMutationEffects ∨
      limits.maxDepth > maxMutationDepth ∨ limits.deadlineMs = 0 then
    .error .limit
  else if limits.maxBytes ≠ 0 ∧ !isRead scope then .error .limit
  else do
    checkScope scope limits
    return ⟨id, scope, limits, readPage, owner, 0, false, false, ∅⟩

def begin (id : MutationId) (scope : MutationScope) (limits : MutationLimits) (owner : ℕ) :
    Except ReportError MutationExchange :=
  «open» id scope limits (if isRead scope then some wholeFile else none) owner

def beginPaged (id : MutationId) (scope : MutationScope) (limits : MutationLimits)
    (page : PageRequest) (owner : ℕ) : Except ReportError MutationExchange :=
  if !isRead scope then .error .limit else «open» id scope limits (some page) owner

end MutationExchange

/-! ### Validation -/

/-- A read claim is consistent with the page that was asked for. -/
def readClaimIsConsistent (page : PageRequest) (length : UInt64) (range : Option ByteRange)
    (lines : Option LineSpan) : Bool :=
  match range with
  | none => false
  | some r =>
    let rangeOk := r.start ≤ r.stop && r.stop - r.start == length &&
      (page.offsetLine != 1 || r.start ≤ page.column) &&
      (length == 0 || r.start.toNat ≥ page.offsetLine.toNat - 1)
    let linesOk := (length == 0 || lines.isSome) &&
      lines.all fun l ↦
        decide (length > 0) && l.first == page.offsetLine && decide (l.first ≤ l.last) &&
          decide ((l.last - l.first).toNat < page.limitLines.toNat)
    rangeOk && linesOk

/-- The effect a scope expects. -/
def MutationScope.expected : MutationScope → ReportedEffect
  | exact _ effect => effect
  | recursiveDelete _ => .deletedEntry
  | directories _ => .createdDirectory

/-- The check of one reported effect. -/
def validateEntry (x : MutationExchange) (entry : EffectEntry) : Except ReportError Unit := do
  validatePath x.scope x.limits entry.path
  if entry.effect ≠ x.scope.expected then .error .wrongEffect
  else if entry.effect = .readFile then
    match entry.length with
    | none => .error .inconsistentClaim
    | some n =>
      if n > x.limits.maxBytes then .error .limit
      else
        match x.readPage with
        | none => .error .inconsistentClaim
        | some page =>
          if readClaimIsConsistent page n entry.range entry.lines then .ok ()
          else .error .inconsistentClaim
  else if entry.length.isSome ∨ entry.range.isSome ∨ entry.lines.isSome then
    .error .inconsistentClaim
  else .ok ()

/-- The root of a recursive deletion goes last: nothing follows it, in this batch or a later one. -/
def rootLast (x : MutationExchange) (effects : List EffectEntry) : Except ReportError Unit :=
  match x.scope with
  | .recursiveDelete root =>
    if x.seen.contains root then .error .inconsistentClaim
    else if effects.dropLast.any fun entry ↦ entry.path == root then .error .inconsistentClaim
    else .ok ()
  | _ => .ok ()

/-- The paths of a batch, none reported before and none twice. -/
def freshPaths (seen : Std.ExtTreeSet String compare) (paths : List String) :
    List EffectEntry → Except ReportError (List String)
  | [] => .ok paths
  | entry :: rest =>
    if seen.contains entry.path ∨ entry.path ∈ paths then .error .inconsistentClaim
    else freshPaths seen (paths ++ [entry.path]) rest

/-- The check of a batch: the index after it and its paths. -/
def validateBatch (x : MutationExchange) (effects : List EffectEntry) :
    Except ReportError (UInt32 × List String) :=
  if effects.isEmpty ∨ effects.length > maxMutationBatch then .error .limit
  else if effects.length ≥ 2 ^ 32 ∨ x.nextIndex.toNat + effects.length ≥ 2 ^ 32 then .error .limit
  else
    let next := x.nextIndex + UInt32.ofNat effects.length
    if next > x.limits.maxEffects then .error .limit
    else do
      effects.forM (validateEntry x)
      rootLast x effects
      let paths ← freshPaths x.seen [] effects
      return (next, paths)

/-- A claim of success that the reported progress supports. -/
def supportsSuccess (x : MutationExchange) : Bool :=
  match x.scope with
  | .exact _ _ => x.nextIndex == 1
  | .recursiveDelete root => x.seen.contains root
  | .directories _ => true

/-- The check of a final report. -/
def validateFinish (x : MutationExchange) (outcome : ReportedFinish) (stoppedAt : Option String) :
    Except ReportError Unit := do
  match stoppedAt with
  | some path => validatePath x.scope x.limits path
  | none => pure ()
  if outcome = .success ∧ !supportsSuccess x then .error .inconsistentClaim else .ok ()

/-- The correlation of a report. -/
def MutationReport.correlation : MutationReport → MutationId × UInt32
  | batch id firstIndex _ => (id, firstIndex)
  | finished id nextIndex _ _ => (id, nextIndex)

/-- Reserve a transition for a report. A refused report leaves the exchange as it was. -/
def validateReport (x : MutationExchange) (report : MutationReport) :
    Except ReportError (MutationExchange × PendingReport) :=
  if x.terminal then .error .terminal
  else if x.outstanding then .error .outstanding
  else if report.correlation.1 ≠ x.id then .error .wrongId
  else if report.correlation.2 ≠ x.nextIndex then .error .wrongIndex
  else
    match report with
    | .batch _ _ effects => do
      let (next, paths) ← validateBatch x effects
      return ({ x with outstanding := true }, ⟨x.owner, next, false, paths⟩)
    | .finished _ _ outcome stoppedAt => do
      validateFinish x outcome stoppedAt
      return ({ x with outstanding := true }, ⟨x.owner, x.nextIndex, true, []⟩)

/-- Commit a reserved transition. -/
def acknowledge (x : MutationExchange) (pending : PendingReport) :
    Except ReportError (MutationExchange × MutationAck) :=
  if x.owner ≠ pending.owner then .error .foreignPending
  else
    .ok ({ x with
        seen := x.seen.insertMany pending.paths
        nextIndex := pending.nextIndex
        terminal := pending.terminal
        outstanding := false },
      ⟨x.id, pending.nextIndex⟩)

/-! ### What is accepted is in scope -/

/-- The path is one the scope covers, in terms of components. -/
def MutationScope.Holds : MutationScope → String → Prop
  | exact expected _, path => path = expected
  | recursiveDelete root, path => components root <+: components path
  | directories paths, path => path ∈ paths

variable {path : String} {scope : MutationScope}

theorem canonicalPath_eq_ok_iff : canonicalPath path = .ok () ↔
    path.utf8ByteSize ≤ maxMutationPathBytes ∧ IsCanonical path := by
  unfold canonicalPath
  constructor
  · intro h
    split_ifs at h with hlen hshape hroot hany
    all_goals
      obtain ⟨habs, hnul⟩ := not_or.mp hshape
      refine ⟨by omega, by simpa using habs, hnul, ?_⟩
    · exact .inl hroot
    · exact .inr (by simpa [IsEntryName, and_assoc] using hany)
  · rintro ⟨hlen, hcanon⟩
    rw [if_neg (by omega), if_neg (by simp [hcanon.absolute, hcanon.no_nul])]
    split_ifs with hroot hany
    · rfl
    · have hentries := hcanon.entries.resolve_left hroot
      simp only [any_eq_true] at hany
      obtain ⟨c, hc, hbad⟩ := hany
      simp_all [IsEntryName]
    · rfl

/-- What is left below a root puts its components in front. -/
theorem components_prefix_of_suffixBelow {root path suffix}
    (h : suffixBelow root path = some suffix) : components root <+: components path := by
  unfold suffixBelow at h
  split_ifs at h with heq hroot
  · rw [heq]
  · rw [hroot]
    exact nil_prefix
  · obtain ⟨rest, hrest, hslash⟩ := Option.bind_eq_some_iff.mp h
    rw [stripPrefix_eq_some] at hrest hslash
    rw [hrest, hslash, ← String.append_assoc, components_append_slash]
    exact prefix_append _ _

theorem holds_of_validatePath {limits}
    (h : validatePath scope limits path = .ok ()) : IsCanonical path ∧ scope.Holds path := by
  obtain ⟨⟨⟩, hcanon, h⟩ := bind_eq_ok.mp h
  refine ⟨(canonicalPath_eq_ok_iff.mp hcanon).2, ?_⟩
  cases scope with
  | exact expected effect =>
    simp only at h
    split_ifs at h with hne
    exact not_not.mp hne
  | recursiveDelete root =>
    cases hsuffix : suffixBelow root path with
    | none => simp [hsuffix] at h
    | some suffix => exact components_prefix_of_suffixBelow hsuffix
  | directories paths =>
    simp only at h
    split_ifs at h with hany
    simpa [MutationScope.Holds] using hany

/-- A checked effect is on a path of the scope and is the effect the scope expects. -/
theorem holds_of_validateEntry {x entry}
    (h : validateEntry x entry = .ok ()) :
    IsCanonical entry.path ∧ x.scope.Holds entry.path ∧ entry.effect = x.scope.expected := by
  obtain ⟨⟨⟩, hpath, h⟩ := bind_eq_ok.mp h
  obtain ⟨hcanon, hholds⟩ := holds_of_validatePath hpath
  refine ⟨hcanon, hholds, ?_⟩
  by_contra hne
  rw [if_pos hne] at h
  cases h

/-- What an accepted report says about the exchange and its effects. -/
theorem holds_of_validateReport {x x' report pending}
    (h : validateReport x report = .ok (x', pending)) :
    x'.scope = x.scope ∧ ∀ entry ∈ report.effects,
      IsCanonical entry.path ∧ x.scope.Holds entry.path ∧ entry.effect = x.scope.expected := by
  unfold validateReport at h
  split_ifs at h
  cases report with
  | batch id firstIndex effects =>
    obtain ⟨⟨next, paths⟩, hbatch, h⟩ := bind_eq_ok.mp h
    cases pure_eq_ok.mp h
    refine ⟨rfl, fun entry hentry ↦ ?_⟩
    unfold validateBatch at hbatch
    dsimp only at hbatch
    split_ifs at hbatch
    obtain ⟨⟨⟩, hall, -⟩ := bind_eq_ok.mp hbatch
    exact holds_of_validateEntry (forM_eq_ok.mp hall entry hentry)
  | finished id nextIndex outcome stoppedAt =>
    obtain ⟨-, -, h⟩ := bind_eq_ok.mp h
    cases pure_eq_ok.mp h
    exact ⟨rfl, nofun⟩

/-! ### Runs -/

/-- Any interleaving of the two calls on one exchange, with the reports accepted so far. The pending
transition handed to `acknowledge` may be any, of this exchange or of another. -/
inductive Run (x₀ : MutationExchange) : List MutationReport → MutationExchange → Prop
  | start : Run x₀ [] x₀
  | validate {reports : List MutationReport} {x x' : MutationExchange} {report : MutationReport}
      {pending : PendingReport} (run : Run x₀ reports x)
      (h : validateReport x report = .ok (x', pending)) : Run x₀ (reports ++ [report]) x'
  | acknowledge {reports : List MutationReport} {x x' : MutationExchange} {pending : PendingReport}
      {ack : MutationAck} (run : Run x₀ reports x)
      (h : acknowledge x pending = .ok (x', ack)) : Run x₀ reports x'

variable {x₀ x : MutationExchange} {reports : List MutationReport}

/-- The scope is fixed when the exchange is opened. -/
theorem Run.scope_eq (run : Run x₀ reports x) : x.scope = x₀.scope := by
  induction run with
  | start => rfl
  | validate _ h ih => exact (holds_of_validateReport h).1.trans ih
  | acknowledge _ h ih =>
    unfold Kernel.acknowledge at h
    split_ifs at h
    cases h
    exact ih

/-- Every effect of every accepted report is in the scope the exchange was opened with. -/
theorem Run.holds (run : Run x₀ reports x) : ∀ report ∈ reports, ∀ entry ∈ report.effects,
    IsCanonical entry.path ∧ x₀.scope.Holds entry.path ∧ entry.effect = x₀.scope.expected := by
  induction run with
  | start => simp
  | validate run h ih =>
    refine forall_mem_concat.mpr ⟨ih, ?_⟩
    rw [← run.scope_eq]
    exact (holds_of_validateReport h).2
  | acknowledge _ _ ih => exact ih

/-! ### Every acknowledged effect was authorized -/

/-- An exchange opened, for whole files or for one page, with a scope. -/
def Opens (scope : MutationScope) (x₀ : MutationExchange) : Prop :=
  ∃ id limits owner, MutationExchange.begin id scope limits owner = .ok x₀ ∨
    ∃ page, MutationExchange.beginPaged id scope limits page owner = .ok x₀

theorem Opens.scope_eq (h : Opens scope x₀) : x₀.scope = scope := by
  have hopen : ∀ {id limits page owner},
      MutationExchange.open id scope limits page owner = .ok x₀ → x₀.scope = scope := by
    intro id limits page owner h
    unfold MutationExchange.open at h
    split_ifs at h
    obtain ⟨-, -, rfl⟩ := bind_pure_eq_ok.mp h
    rfl
  obtain ⟨id, limits, owner, h | ⟨page, h⟩⟩ := h
  · exact hopen h
  · unfold MutationExchange.beginPaged at h
    split_ifs at h
    exact hopen h

/-- **Every effect a client can get accepted is permitted by itself.** When an attempt is prepared
and authorized on a snapshot, each effect of each report accepted along any run of an exchange
opened with the prepared scope is on a canonical path, and the snapshot permits the single-object
operation of that effect there, for the same subject and home. -/
theorem reported_effect_permitted (snap : Authz.Snapshot) (principal : Authz.Principal)
    (systems : List ClassificationPolicy) (policyName : String) (verb : Verb)
    (fd : Option Descriptor) (home : OsPath) (uid : UInt32) (lane : Lane)
    (prepared : PreparedMutation) (hprepare : prepare verb fd home uid lane = .ok prepared)
    (decided : DecidedBy × ObjectLabel)
    (hauthorize : authorize systems prepared verb uid (some home)
      (Authz.candidate snap principal) policyName = .ok decided)
    (x₀ x : MutationExchange) (hopen : Opens prepared.scope x₀) (reports : List MutationReport)
    (hrun : Run x₀ reports x) :
    ∀ report ∈ reports, ∀ entry ∈ report.effects, IsCanonical entry.path ∧
      (Authz.decideLoadedCited snap.loaded principal (attemptRequest verb uid (some home)
        entry.effect.operation entry.path)).verdict.IsPermit := by
  intro report hreport entry hentry
  obtain ⟨hcanon, hholds, heffect⟩ := hrun.holds report hreport entry hentry
  refine ⟨hcanon, ?_⟩
  have hcovers := prepare_covers hprepare
  have hpermit := fun path (hpath : path ∈ prepared.paths) ↦ isPermit_of_authorize hauthorize hpath
  rw [hopen.scope_eq] at hholds heffect
  unfold Covers at hcovers
  rw [heffect]
  cases hscope : prepared.scope with
  | exact path effect =>
    simp only [hscope] at hcovers hholds
    rw [hholds, show (MutationScope.exact path effect).expected = effect from rfl, ← hcovers.2]
    exact hpermit path hcovers.1
  | recursiveDelete root =>
    simp only [hscope] at hcovers hholds
    have hroot := hpermit root hcovers.1
    rw [hcovers.2] at hroot
    exact isPermit_deleteEntry_of_deleteTree (action_mem_of_prepare hprepare) hroot hcanon hholds
  | directories paths =>
    simp only [hscope] at hcovers hholds
    show (Authz.decideLoadedCited _ _ (attemptRequest _ _ _ .mkdir _)).verdict.IsPermit
    rw [← hcovers.2]
    exact hpermit entry.path (hcovers.1 ▸ hholds)

/-- A home policy, whose one role is the principal's. -/
def homeSnapshot : Authz.Snapshot where
  loaded :=
    { policy := .homeGrant
      roles := ⟨⟨.kernel, 0, 1, [], [], [0], [0], [], []⟩, false⟩
      actionGrants := ∅
      destinations := ∅
      subjects := ∅ }
  cite _ := none

/-- A descriptor of the home. -/
def homeDescriptor : Descriptor where
  verifyDelegated _ := .error "not a regular file"
  refuseAccessBearing _ := .ok ()
  verifyMutationDirectory _ := .ok (.ofString "/home/u")

/-- Deletion of a directory of the home with everything in it. -/
def deleteWork : Verb := .fsDelete "/home/u/work" true

/-- A report on an entry well below the directory. -/
def deletedBelow : MutationReport :=
  .batch ⟨7, 11⟩ 0 [⟨"/home/u/work/a/b", .deletedEntry, none, none, none⟩]

theorem reported_effect_permitted_deleteWork :
    (Authz.decideLoadedCited homeSnapshot.loaded ⟨1000⟩ (attemptRequest deleteWork 1000
      (some (.ofString "/home/u")) .deleteEntry "/home/u/work/a/b")).verdict.IsPermit := by
  have hrun := reported_effect_permitted homeSnapshot ⟨1000⟩
    [basicPolicy] "US" deleteWork (some homeDescriptor)
    (.ofString "/home/u") 1000 .local
    ⟨.recursiveDelete "/home/u/work", ["/home/u/work"], .deleteTree, by decide⟩ rfl _ rfl _ _
    ⟨⟨7, 11⟩, ⟨4096, 128, 5000, 0⟩, 0, .inl rfl⟩ [deletedBelow] (.validate .start rfl)
  exact (hrun deletedBelow (by decide) _ mem_cons_self).2

end Maknae.Kernel
