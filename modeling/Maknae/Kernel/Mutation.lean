import Maknae.Authz.Permit
import Maknae.Kernel.Classification
import Maknae.Kernel.Handler

/-!
# Preparing and authorizing a filesystem attempt

A filesystem verb is carried out by the client, not by the kernel. `prepare` turns the verb and the
descriptor that came with it into the list of paths to decide and the scope the client may report
in; `authorize` decides every path of that list from one policy snapshot.

The paths come from what the operating system reports about the descriptor, not from the client's
text, and every one of them passes `checked` first. What the operating system answers is a
`Descriptor`: three functions about which nothing is assumed.

The paths, the scope and the operation are three views of one authority. `Covers` says how they
agree, and `prepare_covers` that every prepared attempt is one where they do.
-/

namespace Maknae.Kernel

open Except List Security Text

/-! ### Wire types -/

def maxMutationEffects : UInt32 := 4096
def maxMutationDepth : UInt16 := 128
def maxMutationBatch : ℕ := 32
def maxMutationPathBytes : ℕ := 4096

/-- What a client reports to have done. -/
inductive ReportedEffect
  | createdFile
  | replacedFile
  | createdDirectory
  | deletedEntry
  | readFile
deriving DecidableEq, Repr

/-- Where a client may report effects. -/
inductive MutationScope
  | exact (path : String) (effect : ReportedEffect)
  | recursiveDelete (root : String)
  | directories (paths : List String)

/-! ### Descriptors -/

structure AnchorRequired where
  owner : Option UInt32
  modeMask : Option UInt32

structure TargetRequired where
  owner : Option UInt32
  modeMask : Option UInt32
  nlinkExactlyOne : Bool
  regularFile : Bool
  maxBytes : Option UInt64

/-- What a descriptor of an object must prove. -/
structure DelegatedRequired where
  confinedBeneath : OsPath
  rootRequired : AnchorRequired
  target : TargetRequired

/-- What a descriptor of a directory must prove. -/
structure MutationRequired where
  confinedBeneath : OsPath
  rootRequired : AnchorRequired

/-- What the operating system answers about a descriptor. -/
structure Descriptor where
  /-- The path of the object, when the requirements hold. -/
  verifyDelegated : DelegatedRequired → Except String OsPath
  /-- The refusal of an object that bears access of its own. -/
  refuseAccessBearing : OsPath → Except String Unit
  /-- The path of the directory, when the requirements hold. -/
  verifyMutationDirectory : MutationRequired → Except String OsPath

/-- The requirements on a descriptor of the requester: beneath its home, owned by it, on a root no
one else can write. -/
def delegatedPlan (home : OsPath) (ownerUid : UInt32) : DelegatedRequired where
  confinedBeneath := home
  rootRequired := ⟨some ownerUid, some 0o022⟩
  target := ⟨none, none, true, true, none⟩

/-! ### Preparation -/

/-- The path a filesystem verb asks for. -/
def Verb.path : Verb → Option String
  | .fsWrite path _ => some path
  | .fsDelete path _ => some path
  | .fsMkdir path _ _ => some path
  | .read path => some path
  | _ => none

/-- A component that names an entry. -/
def normal (component : String) : Bool :=
  component != "" && component != "." && component != ".." && !component.toList.contains '/' &&
    !component.toList.contains '\x00'

/-- The gate every path passes, the client's and the operating system's. -/
def checked (path : String) : Except String Unit :=
  if path.utf8ByteSize > maxMutationPathBytes ∨ '\x00' ∈ path.toList then
    .error "mutation path limit or NUL"
  else lexicalPregate path

/-- A prepared attempt: where the client may report, the paths to decide, and the operation. -/
structure PreparedMutation where
  scope : MutationScope
  paths : List String
  kind : FsOperation
  /-- There is a path to decide. -/
  paths_ne_nil : paths ≠ []

/-- The operations on an object that is there already: the refusal text, the operation, the
effect. -/
def Verb.object : Verb → Option (String × FsOperation × ReportedEffect)
  | .read _ => some ("read evidence refused", .read, .readFile)
  | .fsWrite _ .existing => some ("replacement evidence refused", .writeExisting, .replacedFile)
  | _ => none

/-- Prepare an attempt on the object a descriptor is open on. -/
def prepareObject (fd : Descriptor) (home : OsPath) (uid : UInt32) (refused : String)
    (kind : FsOperation) (effect : ReportedEffect) : Except String PreparedMutation := do
  let object ← (fd.verifyDelegated (delegatedPlan home uid)).mapError fun e ↦ s!"{refused}: {e}"
  (fd.refuseAccessBearing object).mapError fun e ↦ s!"{refused}: {e}"
  match object.toStr with
  | none => .error "non-UTF-8 object path"
  | some path =>
    checked path
    return ⟨.exact path effect, [path], kind, cons_ne_nil _ _⟩

/-- The names an attempt adds below the descriptor's directory. -/
def suffixComponents (verb : Verb) (asked : String) : Except String (List String) :=
  match verb with
  | .fsMkdir _ parents components =>
    if components.isEmpty ∨ components.length > maxMutationDepth.toNat ∨
        (!parents ∧ components.length ≠ 1) then
      .error "invalid mkdir suffix length"
    else if components.any fun c ↦ !normal c then .error "invalid mkdir component"
    else if !components.isSuffixOf ((split '/' asked).drop 1) then
      .error "mkdir suffix does not match requested path"
    else .ok components
  | _ =>
    match (((OsPath.ofString asked).fileName.bind OsPath.toStr).filter normal) with
    | some leaf => .ok [leaf]
    | none => .error "missing normal leaf"

/-- The paths of the names below a directory, each one below the one before. -/
def extendPaths (current : OsPath) : List String → Except String (List String)
  | [] => .ok []
  | component :: components => do
    let current := current.push component
    match current.toStr with
    | none => .error "non-UTF-8 namespace path"
    | some p =>
      checked p
      let ps ← extendPaths current components
      return p :: ps

/-- The operation and the scope of an attempt on a name, whose last path is `root`. -/
def namespaceScope (verb : Verb) (home : OsPath) (paths : List String) (root : String) :
    Except String (FsOperation × MutationScope) :=
  match verb with
  | .fsWrite _ .createExclusive => .ok (.writeCreate, .exact root .createdFile)
  | .fsDelete _ recursive =>
    if (OsPath.ofString root).samePath home then .error "cannot delete confinement root"
    else if recursive then .ok (.deleteTree, .recursiveDelete root)
    else .ok (.deleteEntry, .exact root .deletedEntry)
  | .fsMkdir _ parents _ =>
    .ok (.mkdir, if parents then .directories paths else .exact root .createdDirectory)
  | _ => .error "invalid mutation operation"

/-- Prepare an attempt on a name below the directory a descriptor is open on. -/
def prepareName (verb : Verb) (asked : String) (fd : Descriptor) (home : OsPath) (uid : UInt32) :
    Except String PreparedMutation := do
  let directory ← (fd.verifyMutationDirectory
    ⟨home, (delegatedPlan home uid).rootRequired⟩).mapError
      fun e ↦ s!"namespace location evidence refused: {e}"
  let components ← suffixComponents verb asked
  let paths ← extendPaths directory components
  match paths with
  | [] => .error "missing mutation path"
  | p :: ps => do
    let root := (p :: ps).getLast (cons_ne_nil p ps)
    let (kind, scope) ← namespaceScope verb home (p :: ps) root
    return ⟨scope, p :: ps, kind, cons_ne_nil p ps⟩

/-- Prepare a verb for a decision. -/
def prepare (verb : Verb) (fd : Option Descriptor) (home : OsPath) (uid : UInt32) (lane : Lane) :
    Except String PreparedMutation :=
  match verb.path with
  | none => .error "not a mutation"
  | some asked => do
    checked asked
    if lane ≠ .local then .error "mutation requires local subject execution"
    else if home.samePath (.ofString "/") then
      .error "requester home unavailable: unresolvable"
    else
      match fd with
      | none =>
        .error (match verb with
          | .read _ => "read descriptor missing"
          | _ => "mutation descriptor missing")
      | some fd =>
        match verb.object with
        | some (refused, kind, effect) => prepareObject fd home uid refused kind effect
        | none => prepareName verb asked fd home uid

/-! ### Authorization -/

/-- The role a path was decided on and the rule that decided it. -/
abbrev DecidedBy := Option String × Option RuleCitation

/-- The request an attempt makes of the policy about one path. -/
def attemptRequest (verb : Verb) (uid : UInt32) (home : Option OsPath) (kind : FsOperation)
    (path : String) : Request :=
  let request := buildAuthzRequest verb uid home .local none
  { request with
    resource := request.resource.insert "path" (.str path)
    context := request.context.insert contextFsOperation (.str kind.asStr) }

/-- Walk the decided paths: each must be permitted with obligations that can be discharged. The
error names the path, and carries the rule unless it stands in place of a permit. -/
def settlePaths (decided : DecidedBy) :
    List (String × Decided) → Except (String × String × DecidedBy) DecidedBy
  | [] => .ok decided
  | (path, d) :: rest =>
    match finalize (combine [d.verdict]) with
    | .permit obligations =>
      match dischargePlan obligations with
      | .error _ => .error ("unhonorable mutation obligation", path, (d.role, none))
      | .ok () => settlePaths (d.role, d.rule) rest
    | .deny reason => .error (reason, path, (d.role, d.rule))

/-- Decide every path of a prepared attempt from one snapshot. -/
def authorize (systems : List ClassificationPolicy) (prepared : PreparedMutation) (verb : Verb)
    (uid : UInt32) (home : Option OsPath) (authorizer : Authorizer) (policyName : String) :
    Except (String × String × DecidedBy) (DecidedBy × ObjectLabel) := do
  let requests := prepared.paths.map (attemptRequest verb uid home prepared.kind)
  let decided ← settlePaths (none, none)
    (prepared.paths.zip (guardedDecideCitedAll authorizer requests))
  let path := prepared.paths.getLast prepared.paths_ne_nil
  match objectLabel systems policyName (attemptRequest verb uid home prepared.kind path) with
  | some label => return (decided, label)
  | none => .error ("object label unresolved", path, (decided.1, none))

/-! ### What is prepared agrees with itself -/

/-- The operation on a single object that an effect is an instance of. -/
def ReportedEffect.operation : ReportedEffect → FsOperation
  | createdFile => .writeCreate
  | replacedFile => .writeExisting
  | createdDirectory => .mkdir
  | deletedEntry => .deleteEntry
  | readFile => .read

/-- The scope reports on nothing but the paths and the operation that are decided. -/
def Covers (prepared : PreparedMutation) : Prop :=
  match prepared.scope with
  | .exact path effect => path ∈ prepared.paths ∧ prepared.kind = effect.operation
  | .recursiveDelete root => root ∈ prepared.paths ∧ prepared.kind = .deleteTree
  | .directories paths => paths = prepared.paths ∧ prepared.kind = .mkdir

variable {verb : Verb} {home : OsPath} {uid : UInt32} {prepared : PreparedMutation}

variable {kind : FsOperation} {lane : Lane} {fd : Option Descriptor} {path : String}
  {askHome : Option OsPath} {principal : Authz.Principal} {lp : Authz.LoadedPolicy}

theorem prepareObject_covers {fd refused effect}
    (hkind : kind = effect.operation)
    (h : prepareObject fd home uid refused kind effect = .ok prepared) : Covers prepared := by
  obtain ⟨object, -, -, -, h⟩ := bind₂_eq_ok.mp h
  cases hpath : object.toStr with
  | none => simp [hpath] at h
  | some path =>
    simp only [hpath] at h
    obtain ⟨-, -, rfl⟩ := bind_pure_eq_ok.mp h
    exact ⟨mem_cons_self, hkind⟩

theorem namespaceScope_covers {p ps scope}
    (h : namespaceScope verb home (p :: ps) ((p :: ps).getLast (cons_ne_nil p ps)) =
    .ok (kind, scope)) :
    Covers ⟨scope, p :: ps, kind, cons_ne_nil p ps⟩ := by
  have hlast := getLast_mem (cons_ne_nil p ps)
  unfold namespaceScope at h
  split at h
  · cases h
    exact ⟨hlast, rfl⟩
  · split_ifs at h
    · cases h
      exact ⟨hlast, rfl⟩
    · cases h
      exact ⟨hlast, rfl⟩
  · split_ifs at h
    · cases h
      exact ⟨rfl, rfl⟩
    · cases h
      exact ⟨hlast, rfl⟩
  · cases h

theorem prepareName_covers {asked fd}
    (h : prepareName verb asked fd home uid = .ok prepared) : Covers prepared := by
  obtain ⟨directory, -, components, -, paths, -, h⟩ := bind₃_eq_ok.mp h
  cases paths with
  | nil => cases h
  | cons p ps =>
    obtain ⟨⟨kind, scope⟩, hscope, rfl⟩ := bind_pure_eq_ok.mp h
    exact namespaceScope_covers hscope

/-- **A prepared attempt reports on what it decides.** -/
theorem prepare_covers (h : prepare verb fd home uid lane = .ok prepared) : Covers prepared := by
  unfold prepare at h
  cases hpath : verb.path with
  | none => simp [hpath] at h
  | some asked =>
    simp only [hpath] at h
    obtain ⟨-, -, h⟩ := bind_eq_ok.mp h
    split_ifs at h
    cases fd with
    | none => cases h
    | some fd =>
      cases hobject : verb.object with
      | none =>
        simp only [hobject] at h
        exact prepareName_covers h
      | some plan =>
        simp only [hobject] at h
        refine prepareObject_covers ?_ h
        unfold Verb.object at hobject
        split at hobject <;> cases hobject <;> rfl

/-! ### What is authorized is permitted -/

/-- Every settled path was permitted on its own. -/
theorem isPermit_of_settlePaths {decided r} {l : List (String × Decided)}
    (h : settlePaths decided l = .ok r) : ∀ pd ∈ l, pd.2.verdict.IsPermit := by
  induction l generalizing decided with
  | nil => simp
  | cons pd rest ih =>
    obtain ⟨path, d⟩ := pd
    rw [settlePaths] at h
    cases hfinal : finalize (combine [d.verdict]) with
    | deny reason => simp [hfinal] at h
    | permit obligations =>
      simp only [hfinal] at h
      cases hplan : dischargePlan obligations with
      | error e => simp [hplan] at h
      | ok _ =>
        simp only [hplan] at h
        exact forall_mem_cons.mpr ⟨isPermit_of_finalize_combine hfinal, ih h⟩

/-- A snapshot answers once per request, so the panic boundary changes nothing. -/
theorem guardedDecideCitedAll_candidate (snap : Authz.Snapshot) (principal : Authz.Principal)
    (reqs : List Request) :
    guardedDecideCitedAll (Authz.candidate snap principal) reqs =
      reqs.map fun req ↦
        Authz.citedOn snap (Authz.decideLoadedCited snap.loaded principal req) := by
  simp [guardedDecideCitedAll, Authz.candidate]

/-- **An authorized attempt is permitted on every path it decides.** -/
theorem isPermit_of_authorize {systems snap policyName} {r : DecidedBy × ObjectLabel}
    (h : authorize systems prepared verb uid askHome (Authz.candidate snap principal) policyName =
    .ok r) (hpath : path ∈ prepared.paths) :
    (Authz.decideLoadedCited snap.loaded principal
      (attemptRequest verb uid askHome prepared.kind path)).verdict.IsPermit := by
  obtain ⟨decided, hsettle, -⟩ := bind_eq_ok.mp h
  rw [guardedDecideCitedAll_candidate, map_map] at hsettle
  rw [← map_prod_left_eq_zip] at hsettle
  exact isPermit_of_settlePaths hsettle _ (mem_map_of_mem hpath)

/-! ### The requests of an attempt -/

/-- Only filesystem verbs are prepared. -/
theorem action_mem_of_prepare (h : prepare verb fd home uid lane = .ok prepared) :
    verbToAction verb ∈ Authz.fsActions := by
  have hpath : verb.path ≠ none := fun hnone ↦ by simp [prepare, hnone] at h
  cases verb <;> first | exact absurd rfl hpath | (simp only [verbToAction]; decide)

section AttemptRequest

variable (verb uid) (askHome : Option OsPath) (kind : FsOperation) (path : String)

@[simp] theorem attemptRequest_path :
    (attemptRequest verb uid askHome kind path).resource[Authz.resourcePath]? =
      some (.str path) := by
  simp [attemptRequest, Authz.resourcePath]

@[simp] theorem attemptRequest_lane :
    Attributes.str (attemptRequest verb uid askHome kind path).context contextDacLane =
      some "local" := by
  rw [Attributes.str_eq_some_iff]
  show ((∅ : Attributes).insert contextDacLane (.str "local") |>.insert contextFsOperation
    (.str kind.asStr))[contextDacLane]? = _
  rw [Std.ExtTreeMap.getElem?_insert, if_neg (by decide), Std.ExtTreeMap.getElem?_insert_self]

@[simp] theorem attemptRequest_operation :
    Attributes.str (attemptRequest verb uid askHome kind path).context contextFsOperation =
      some kind.asStr := by
  rw [Attributes.str_eq_some_iff]
  simp [attemptRequest]

theorem attemptRequest_no_preapproval :
    (attemptRequest verb uid askHome kind path).resource[resourceOsAccessible]? = none := by
  have hbase : (resourceAttributes verb none)[resourceOsAccessible]? = none := by
    unfold resourceAttributes
    split <;> simp [resourceOsAccessible]
  simpa [attemptRequest, buildAuthzRequest, Std.ExtTreeMap.getElem?_insert, resourceOsAccessible]
    using hbase

end AttemptRequest

/-- What the policy allows of an attempt on one path. -/
theorem fsAllowed_attemptRequest_iff {entry} :
    Authz.FsAllowed lp (attemptRequest verb uid askHome kind path) entry ↔
      verbToAction verb ∈ Authz.fsActions ∧ IsCanonical path ∧
      ∃ scope home source, Authz.operationScope (verbToAction verb) kind = some scope ∧
        Authz.carriedHome (attemptRequest verb uid askHome kind path) = some home ∧
        Authz.evaluateScope lp.policy (Authz.permissionSet entry) scope (.ofString path) home =
          .ok (.allowMatch source) := by
  constructor
  · rintro ⟨haction, -, -, operation, scope, path', home, source, hop, hscope, hpath, hcanon,
      hhome, hallow⟩
    rw [attemptRequest_operation, Option.some.injEq] at hop
    obtain rfl := Authz.FsOperation.asStr_injective hop
    obtain rfl : path = path' := by simpa using hpath
    exact ⟨haction, hcanon, scope, home, source, hscope, Authz.carriedHome_eq_some_iff.mpr hhome,
      hallow⟩
  · rintro ⟨haction, hcanon, scope, home, source, hscope, hhome, hallow⟩
    exact ⟨haction, attemptRequest_lane verb uid askHome kind path,
      attemptRequest_no_preapproval verb uid askHome kind path, kind, scope, path, home, source,
      attemptRequest_operation verb uid askHome kind path, hscope,
      attemptRequest_path verb uid askHome kind path, hcanon,
      Authz.carriedHome_eq_some_iff.mp hhome, hallow⟩

/-- **A permitted recursive deletion permits each deletion below its root**, for the same subject
and home. -/
theorem isPermit_deleteEntry_of_deleteTree {root path}
    (haction : verbToAction verb ∈ Authz.fsActions) (h : (Authz.decideLoadedCited lp principal
    (attemptRequest verb uid askHome .deleteTree root)).verdict.IsPermit)
    (hcanon : IsCanonical path) (hbelow : components root <+: components path) :
    (Authz.decideLoadedCited lp principal
      (attemptRequest verb uid askHome .deleteEntry path)).verdict.IsPermit := by
  rw [Authz.isPermit_iff_of_fs haction] at h ⊢
  obtain ⟨uid', huid, role, hmem, hrole, hlimit, hallowed⟩ := h
  obtain ⟨-, -, scope, home, source, hscope, hhome, hallow⟩ :=
    fsAllowed_attemptRequest_iff.mp hallowed
  have hdelete : verbToAction verb = "fs.delete" ∧ scope = .writeSubtree := by
    simp only [Authz.operationScope, Option.ite_none_right_eq_some, Option.some.injEq] at hscope
    exact ⟨hscope.1, hscope.2.symm⟩
  obtain ⟨hdelete, rfl⟩ := hdelete
  obtain ⟨source', hwrite⟩ :=
    Config.AuthzPolicy.evaluate3Floored_of_evaluateWriteSubtree hbelow ⟨source, hallow⟩
  refine ⟨uid', huid, role, hmem, hrole, hlimit, fsAllowed_attemptRequest_iff.mpr
    ⟨haction, hcanon, .write, home, source', ?_, hhome, hwrite⟩⟩
  simp [Authz.operationScope, hdelete]

end Maknae.Kernel
