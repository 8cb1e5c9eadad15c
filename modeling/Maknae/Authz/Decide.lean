import Maknae.Authz.Role
import Maknae.Config.AuthzPolicy
import Maknae.Security.Compose

/-!
# The decision core

`decideLoadedCited` decides one request on one loaded policy: it reads the subject's uid, resolves
its role, and lets the role's arm decide the action. Nothing is read but the arguments.

Every absent or wrong-typed datum is a failed evaluation at the point where it is needed, never a
silent non-match, and every path is checked to be canonical before a pattern sees it.
-/

namespace Maknae.Authz

open Config hiding Request
open Security Text

/-! ### Attribute keys -/

def subjectUid : String := "uid"
def resourcePath : String := "path"
def resourceDestination : String := "destination"
def resourceModel : String := "model"

/-! ### The loaded policy -/

/-- The enrolled principal. -/
structure Principal where
  uid : UInt32

/-- A provider's model. -/
structure ModelRef where
  provider : String
  model : String

def ModelRef.asResource (m : ModelRef) : String := s!"{m.provider}/{m.model}"

/-- The terms a subject's `actions:` lists name, with the entry each was written as. -/
structure SubjectActionSet where
  allow : Std.ExtTreeMap String String compare
  deny : Std.ExtTreeMap String String compare

/-- One `subjects:` entry; an absent key is no limit of that kind. -/
structure SubjectEntry where
  name : String
  permissions : Option SubjectPermissions
  actions : Option SubjectActionSet
  models : Option (List ModelRef)

/-- One expanded grant: the term and the entry it was written as. -/
abbrev Grant := String × String

/-- Role key to the role's allowed and denied terms. -/
abbrev ActionGrants := Std.ExtTreeMap String (List Grant × List Grant) compare

/-- Role key to the role's egress destinations. -/
abbrev DestinationGrants := Std.ExtTreeMap String (List String) compare

/-- One loaded policy snapshot. -/
structure LoadedPolicy where
  policy : AuthzPolicy
  roles : GraphBindings
  actionGrants : ActionGrants
  destinations : DestinationGrants
  subjects : Std.ExtTreeMap UInt32 SubjectEntry compare

inductive Effect
  | allow
  | deny
deriving DecidableEq, Repr

/-- The policy entry a verdict was decided by. -/
inductive Cited
  | path (effect : Effect) (source : String)
  | grant (role : String) (term : String) (effect : Effect)
  | destination (role : String) (destination : String)
  | subjectPath (subject : String) (effect : Effect) (source : String)
deriving DecidableEq, Repr

/-- A verdict, the role it was decided on, and the entry that decided. -/
structure Decided where
  verdict : Verdict
  role : Option String
  cited : Option Cited

/-! ### Actions and classes -/

/-- The terms `roles:` may grant or deny. -/
def grantableActions : List String :=
  ["admin.status", "admin.config.show", "admin.subject.list", "admin.baseline.show",
    "admin.baseline.accept", "admin.contain", "admin.release", "session.prompt"]

/-- The implemented filesystem terms. -/
def fsActions : List String := ["fs.read", "fs.write", "fs.delete", "fs.mkdir"]

/-- The closed action-class vocabulary. -/
inductive ActionClass
  | liveness
  | admin
  | session
  | fs
  | terminal
  | mcp
  | kernel
deriving DecidableEq, Repr

/-- The action is the class name, or the class name followed by a dot. -/
def inClass (a c : String) : Bool :=
  a == c ||
    (decide (c.toList.length < a.toList.length) && a.toList[c.toList.length]? == some '.' &&
      c.toList.isPrefixOf a.toList)

/-- The class of an action, by exact segment. -/
def classOf (action : String) : Option ActionClass :=
  if inClass action "liveness" then some .liveness
  else if inClass action "admin" then some .admin
  else if inClass action "session" then some .session
  else if inClass action "fs" then some .fs
  else if inClass action "terminal" then some .terminal
  else if inClass action "mcp" then some .mcp
  else if inClass action "kernel" then some .kernel
  else none

/-- Deny beats allow within the role's own grants. -/
def evaluate3Action (grants : ActionGrants) (roleKey action : String) : Match3 :=
  match grants[roleKey]? with
  | none => .noMatch
  | some (allow, deny) =>
    match deny.find? fun g ↦ g.1 == action with
    | some (_, source) => .denyMatch source
    | none =>
      match allow.find? fun g ↦ g.1 == action with
      | some (_, source) => .allowMatch source
      | none => .noMatch

/-- An absent role or an empty list allows no destination. -/
def allowsDestination (destinations : DestinationGrants) (roleKey destination : String) : Bool :=
  destinations[roleKey]?.any fun l ↦ l.any (· == destination)

/-- The one obligation every permit carries. -/
def auditObligation : Obligation := ⟨"audit", ∅⟩

def permitWithAudit : Verdict := .permit [auditObligation]

/-- The absence note of a role without a rule for the action. -/
def noRuleNote (roleKey action : String) : String := s!"role {roleKey}: no rule for {action}"

/-! ### Paths -/

/-- The first offence of the pieces of a path below the root. -/
def segmentViolation : List String → Option String
  | [] => none
  | seg :: segs =>
    if seg = "" then some "empty segment ('//' or trailing '/')"
    else if seg = "." then some "'.' component"
    else if seg = ".." then some "'..' component"
    else segmentViolation segs

/-- What makes a path not canonical, if anything does. -/
def canonicalViolation (path : String) : Option String :=
  if path.toList.contains '\x00' then some "NUL byte"
  else if !startsWithChar '/' path then some "not absolute"
  else if path = "/" then none
  else segmentViolation (split '/' (drop 1 path))

/-! ### The arms of the decision -/

/-- What refuses the requested model to a subject that lists models. -/
def modelRefusal (req : Request) (subject : Option SubjectEntry) : Option Verdict :=
  match subject.bind fun s ↦ s.models.map fun listed ↦ (s.name, listed) with
  | none => none
  | some (name, listed) =>
    match req.resource[resourceModel]? with
    | some (.str model) =>
      if listed.any fun m ↦ m.asResource == model then none
      else some (.deny s!"subject {name}: model {model} is not in subjects.{name}.models allow")
    | _ => some .indeterminate

/-- The `session.prompt` arm: the role's grant, then the destination in the role's allowlist, then,
when the subject lists models, the model in that list. -/
def decidePrompt (lp : LoadedPolicy) (req : Request) (roleKey : String)
    (subject : Option SubjectEntry) : Verdict × Option Cited :=
  match evaluate3Action lp.actionGrants roleKey "session.prompt" with
  | .denyMatch source =>
    (.deny s!"denied by role grant {source}", some (.grant roleKey source .deny))
  | .noMatch => (.notApplicable (some (noRuleNote roleKey "session.prompt")), none)
  | .allowMatch _ =>
    match req.resource[resourceDestination]? with
    | some (.str destination) =>
      if !allowsDestination lp.destinations roleKey destination then
        (.deny s!"destination not allowlisted for role {roleKey}: {destination}", none)
      else
        match modelRefusal req subject with
        | some verdict => (verdict, none)
        | none => (permitWithAudit, some (.destination roleKey destination))
    | some _ => (.indeterminate, none)
    | none => (.deny "no destination on session.prompt", none)

/-- The refusal of an action a subject's lists do not admit. -/
def limitRefusal (name : String) (set : SubjectActionSet) (action : String) : Option Verdict :=
  match set.deny[action]? with
  | some source =>
    some (.deny s!"subject {name}: {action} denied by subjects.{name}.actions entry {source}")
  | none =>
    if set.allow.contains action then none
    else some (.deny s!"subject {name}: {action} is not in subjects.{name}.actions allow")

/-- The refusal of the subject's own `actions:` limit, if it has one that refuses. -/
def actionLimit (entry : Option SubjectEntry) (action : String) : Option Verdict :=
  match entry.bind fun e ↦ e.actions.map fun set ↦ (e.name, set) with
  | none => none
  | some (name, set) =>
    match classOf action with
    | some .liveness | some .kernel | none => none
    | some .admin => if action = "admin.whoami" then none else limitRefusal name set action
    | some .session | some .fs | some .terminal | some .mcp => limitRefusal name set action

/-- The verdict on an action of the kernel class. -/
def kernelDecided (req : Request) : Verdict :=
  let kernel := Attributes.str req.subject subjectInitiator == some initiatorKernel
  let a := req.action
  if kernel then
    if a = "kernel.contain" then permitWithAudit
    else .notApplicable (some s!"term enumerated, not implemented: {a}")
  else .notApplicable (some s!"kernel action requested by a subject that is not the kernel: {a}")

/-- What a filesystem attempt asks of the policy. -/
inductive FsScope
  | read
  | write
  | writeSubtree

/-- The scope of the operation prepared for the action, when the operation belongs to it. -/
def operationScope (action : String) : FsOperation → Option FsScope
  | .read => if action = "fs.read" then some .read else none
  | .writeExisting => if action = "fs.write" then some .write else none
  | .writeCreate => if action = "fs.write" then some .write else none
  | .deleteEntry => if action = "fs.delete" then some .write else none
  | .deleteTree => if action = "fs.delete" then some .writeSubtree else none
  | .mkdir => if action = "fs.mkdir" then some .write else none

/-- The scope of a filesystem attempt, or the refusal of a request that is not a prepared local
attempt. -/
def attemptScope (req : Request) : Except Verdict FsScope :=
  if Attributes.str req.context contextDacLane != some "local" then
    .error (.deny "filesystem attempt requires a local subject")
  else
    match (Attributes.str req.context contextFsOperation).bind FsOperation.parse with
    | none => .error (.deny "filesystem attempt preparation absent or invalid")
    | some operation =>
      match operationScope req.action operation with
      | none => .error (.deny "filesystem attempt preparation does not match action")
      | some scope =>
        if req.resource[resourceOsAccessible]?.isSome then
          .error (.deny "filesystem attempt cannot carry an OS preapproval")
        else .ok scope

/-- The policy's answer about a path at a scope. -/
def evaluateScope (policy : AuthzPolicy) (set : Option SubjectPermissions) (scope : FsScope)
    (path : OsPath) (home : Option OsPath) : Except HomeUnbound Match3 :=
  match scope with
  | .read => policy.evaluate3Floored set (.read path) home
  | .write => policy.evaluate3Floored set (.write path) home
  | .writeSubtree => policy.evaluateWriteSubtreeFloored set path home

/-- The verdict on a policy's answer about a path. `subject` is the name of a subject that has its
own permission set. -/
def fsVerdict (lp : LoadedPolicy) (req : Request) (roleKey : String) (subject : Option String) :
    Match3 → Verdict × Option Cited
  | .denyMatch source =>
    match subject with
    | some name =>
      if !lp.policy.denySources.contains source then
        (.deny s!"denied by subjects.{name}.permissions entry {source}",
          some (.subjectPath name .deny source))
      else (.deny s!"denied by policy entry {source}", some (.path .deny source))
    | none => (.deny s!"denied by policy entry {source}", some (.path .deny source))
  | .allowMatch source =>
    match subject with
    | some name => (permitWithAudit, some (.subjectPath name .allow source))
    | none => (permitWithAudit, some (.path .allow source))
  | .noMatch =>
    let action := req.action
    (.notApplicable (some s!"role {roleKey}: no capability entry for {action}"), none)

/-- The home a request carries; `none` when the attribute is there and not a string. -/
def carriedHome (req : Request) : Option (Option OsPath) :=
  match req.subject[subjectHome]? with
  | none => some none
  | some (.str h) => some (some (.ofString h))
  | some _ => none

/-- The filesystem arm on a path and a home, under the subject's own permission set. -/
def decideFsAt (lp : LoadedPolicy) (req : Request) (roleKey : String) (scope : FsScope)
    (entry : Option SubjectEntry) (path : String) (home : Option OsPath) :
    Verdict × Option Cited :=
  let subject := entry.bind fun e ↦ e.permissions.map fun p ↦ (e.name, p)
  match evaluateScope lp.policy (subject.map Prod.snd) scope (.ofString path) home with
  | .error _ => (.indeterminate, none)
  | .ok matched => fsVerdict lp req roleKey (subject.map Prod.fst) matched

/-- The filesystem arm: a canonical path, a home that is absent or a string, and the policy's
answer. -/
def decideFs (lp : LoadedPolicy) (req : Request) (roleKey : String) (scope : FsScope)
    (entry : Option SubjectEntry) : Verdict × Option Cited :=
  match req.resource[resourcePath]? with
  | some (.str path) =>
    match canonicalViolation path with
    | some offense => (.deny s!"non-canonical resource path ({offense})", none)
    | none =>
      match carriedHome req with
      | none => (.indeterminate, none)
      | some home => decideFsAt lp req roleKey scope entry path home
  | _ => (.indeterminate, none)

/-- The filesystem arm behind the preparation check. -/
def decideAttempt (lp : LoadedPolicy) (req : Request) (roleKey : String)
    (entry : Option SubjectEntry) : Verdict × Option Cited :=
  match attemptScope req with
  | .ok scope => decideFs lp req roleKey scope entry
  | .error verdict => (verdict, none)

/-- The verdict of a role that reaches liveness only. -/
def decideLiveness (roleKey action : String) : Verdict × Option Cited :=
  if classOf action = some .liveness then (permitWithAudit, none)
  else (.notApplicable (some (noRuleNote roleKey action)), none)

/-- The admin arm, after the filesystem and prompt arms. -/
def decideAdmin (lp : LoadedPolicy) (action : String) : Verdict × Option Cited :=
  let unimplemented := (Verdict.notApplicable
    (some s!"term enumerated, not implemented: {action}"), (none : Option Cited))
  match classOf action with
  | some .liveness => (permitWithAudit, none)
  | some .admin =>
    if action = "admin.whoami" then (permitWithAudit, none)
    else if action ∈ grantableActions then
      -- Keyed on the constant: a term the operator denied must not fall through to an absence.
      match evaluate3Action lp.actionGrants "admin" action with
      | .allowMatch source => (permitWithAudit, some (.grant "admin" source .allow))
      | .denyMatch source =>
        (.deny s!"denied by role grant {source}", some (.grant "admin" source .deny))
      | .noMatch => (.notApplicable (some (noRuleNote "admin" action)), none)
    else unimplemented
  | some .fs | some .session | some .terminal | some .mcp | some .kernel | none => unimplemented

/-- The arms of a role on an action that the subject's own limit does not refuse. -/
def decideReach (lp : LoadedPolicy) (req : Request) (entry : Option SubjectEntry) (role : Role) :
    Verdict × Option Cited :=
  if (role = .admin ∨ role = .user) ∧ req.action ∈ fsActions then
    decideAttempt lp req role.key entry
  else if (role = .admin ∨ role = .user) ∧ req.action = "session.prompt" then
    decidePrompt lp req role.key entry
  else if role = .admin then decideAdmin lp req.action
  else decideLiveness role.key req.action

/-- The arms of a resolved role. -/
def decideRole (lp : LoadedPolicy) (req : Request) (uid : UInt32) (role : Role) :
    Verdict × Option Cited :=
  let entry := lp.subjects[uid]?
  if role = .adversary then (.deny "subject contained: role=adversary", none)
  else
    match actionLimit entry req.action with
    | some verdict => (verdict, none)
    | none => decideReach lp req entry role

/-- The 32-bit value of an integer, when it is in range. -/
def u32TryFrom : ℤ → Option UInt32
  | .ofNat n => if n < UInt32.size then some (UInt32.ofNat n) else none
  | .negSucc _ => none

/-- The decision once the subject's uid is known. -/
def decideUid (lp : LoadedPolicy) (principal : Principal) (req : Request) (uid : UInt32) :
    Decided :=
  if classOf req.action = some .kernel then ⟨kernelDecided req, none, none⟩
  else
    match lp.roles.roleFor uid principal.uid with
    | .noRole => ⟨.notApplicable (some "subject resolves to no role"), none, none⟩
    | .role role =>
      let (verdict, cited) := decideRole lp req uid role
      ⟨verdict, some role.key, cited⟩

/-- Decide one request on one loaded policy. The uid is the only identity datum: without one in
range nothing is decided. -/
def decideLoadedCited (lp : LoadedPolicy) (principal : Principal) (req : Request) : Decided :=
  match req.subject[subjectUid]? with
  | some (.int i) =>
    match u32TryFrom i with
    | some uid => decideUid lp principal req uid
    | none => ⟨.indeterminate, none, none⟩
  | _ => ⟨.indeterminate, none, none⟩

/-! ### The seam -/

/-- A compiled snapshot: the loaded policy, and the rule each of its entries is cited as. -/
structure Snapshot where
  loaded : LoadedPolicy
  cite : Cited → Option RuleCitation

def citedOn (snap : Snapshot) (d : Decided) : Security.Decided :=
  ⟨d.verdict, d.role, d.cited.bind snap.cite⟩

/-- The authorizer that decides every request of a batch on one snapshot. -/
def candidate (snap : Snapshot) (principal : Principal) : Authorizer where
  decideCitedAll reqs :=
    some (reqs.map fun req ↦ citedOn snap (decideLoadedCited snap.loaded principal req))

end Maknae.Authz
