import Maknae.Authz.Decide

/-!
# Verbs and the requests built from them

A client asks with a verb. The kernel maps the verb to the one action term that decides and audits
it, and builds the authorization request itself: the subject is the peer's verified uid and the home
the kernel resolved, the lane is the listener that accepted, and nothing of either is read from the
client.
-/

namespace Maknae.Kernel

open Security Text

/-! ### Verbs -/

/-- What a write does with the name. -/
inductive WriteMode
  | existing
  | createExclusive

/-- A page of a file, by line and column. -/
structure PageRequest where
  offsetLine : UInt64
  limitLines : UInt32
  column : UInt64

def wholeFile : PageRequest := ⟨1, 4294967295, 0⟩

/-- The wire verbs. A payload is kept where a modelled function reads it. -/
inductive Verb
  | ping
  | whoami
  | adminStatus
  | adminConfigShow
  | adminAuditTail
  | adminPolicyReload
  | adminSubjectList
  | adminBaselineShow
  | adminBaselineAccept
  | adminSubjectBind
  | adminSubjectUnbind
  | adminContain
  | adminRelease
  | adminCredentialRotate
  | adminProviderList
  | adminProviderSet
  | adminProviderDisable
  | adminSessionList
  | adminSessionTerminate
  | sessionNew
  | sessionResume
  | sessionClose
  | sessionDelete
  | sessionList
  | sessionFork
  | sessionPrompt
  | sessionCancel
  | sessionSetconfigoption
  | sessionSetmode
  | sessionLoad
  | sessionUpdate
  | sessionRequestpermission
  | sessionElicitCreate
  | sessionElicitComplete
  | sessionCompact
  | read (path : String)
  | fsWrite (path : String) (mode : WriteMode)
  | fsDelete (path : String) (recursive : Bool)
  | fsMove
  | fsList
  | fsStat
  | fsMkdir (path : String) (parents : Bool) (components : List String)
  | fsLink
  | fsChmod
  | fsChown
  | terminalCreate
  | terminalOutput
  | terminalWaitforexit
  | terminalKill
  | terminalRelease
  | terminalInput
  | mcpConnect
  | mcpDisconnect
  | mcpMessage
  | mcpToolCall
  | mcpResourceRead
  | mcpPromptGet
  | mcpSamplingCreate

/-- The action term that decides and audits a verb. -/
def verbToAction : Verb → String
  | .ping => "liveness.ping"
  | .whoami => "admin.whoami"
  | .adminStatus => "admin.status"
  | .adminConfigShow => "admin.config.show"
  | .adminAuditTail => "admin.audit.tail"
  | .adminPolicyReload => "admin.policy.reload"
  | .adminSubjectList => "admin.subject.list"
  | .adminBaselineShow => "admin.baseline.show"
  | .adminBaselineAccept => "admin.baseline.accept"
  | .adminSubjectBind => "admin.subject.bind"
  | .adminSubjectUnbind => "admin.subject.unbind"
  | .adminContain => "admin.contain"
  | .adminRelease => "admin.release"
  | .adminCredentialRotate => "admin.credential.rotate"
  | .adminProviderList => "admin.provider.list"
  | .adminProviderSet => "admin.provider.set"
  | .adminProviderDisable => "admin.provider.disable"
  | .adminSessionList => "admin.session.list"
  | .adminSessionTerminate => "admin.session.terminate"
  | .sessionNew => "session.new"
  | .sessionResume => "session.resume"
  | .sessionClose => "session.close"
  | .sessionDelete => "session.delete"
  | .sessionList => "session.list"
  | .sessionFork => "session.fork"
  | .sessionPrompt => "session.prompt"
  | .sessionCancel => "session.cancel"
  | .sessionSetconfigoption => "session.set_config_option"
  | .sessionSetmode => "session.set_mode"
  | .sessionLoad => "session.load"
  | .sessionUpdate => "session.update"
  | .sessionRequestpermission => "session.request_permission"
  | .sessionElicitCreate => "session.elicit.create"
  | .sessionElicitComplete => "session.elicit.complete"
  | .sessionCompact => "session.compact"
  | .read _ => "fs.read"
  | .fsWrite _ _ => "fs.write"
  | .fsDelete _ _ => "fs.delete"
  | .fsMove => "fs.move"
  | .fsList => "fs.list"
  | .fsStat => "fs.stat"
  | .fsMkdir _ _ _ => "fs.mkdir"
  | .fsLink => "fs.link"
  | .fsChmod => "fs.chmod"
  | .fsChown => "fs.chown"
  | .terminalCreate => "terminal.create"
  | .terminalOutput => "terminal.output"
  | .terminalWaitforexit => "terminal.wait_for_exit"
  | .terminalKill => "terminal.kill"
  | .terminalRelease => "terminal.release"
  | .terminalInput => "terminal.input"
  | .mcpConnect => "mcp.connect"
  | .mcpDisconnect => "mcp.disconnect"
  | .mcpMessage => "mcp.message"
  | .mcpToolCall => "mcp.tool.call"
  | .mcpResourceRead => "mcp.resource.read"
  | .mcpPromptGet => "mcp.prompt.get"
  | .mcpSamplingCreate => "mcp.sampling.create"

/-! ### Requests -/

/-- The provider and the model a prompt was admitted with. -/
structure AdmittedChoice where
  provider : String
  model : String

/-- The attributes of the subject: its uid, and its home when that has a text. -/
def subjectAttributes (peerUid : UInt32) (home : Option OsPath) : Attributes :=
  let subject := (∅ : Attributes).insert "uid" (.int peerUid.toNat)
  match home.bind OsPath.toStr with
  | some h => subject.insert subjectHome (.str h)
  | none => subject

/-- The attributes of the resource a verb names. -/
def resourceAttributes : Verb → Option AdmittedChoice → Attributes
  | .read path, _ => (∅ : Attributes).insert "path" (.str path)
  | .sessionPrompt, some a =>
    ((∅ : Attributes).insert "destination" (.str s!"provider:{a.provider}")).insert "model"
      (.str s!"{a.provider}/{a.model}")
  | _, _ => ∅

/-- The request a verb of a verified peer makes of the policy. The lane is an argument, never read
from the verb. -/
def buildAuthzRequest (verb : Verb) (peerUid : UInt32) (home : Option OsPath) (lane : Lane)
    (admitted : Option AdmittedChoice) : Request where
  subject := subjectAttributes peerUid home
  resource := resourceAttributes verb admitted
  action := verbToAction verb
  context := (∅ : Attributes).insert contextDacLane (.str lane.asStr)

/-! ### Obligations -/

/-- An obligation no handler is registered for. -/
structure UnhonorableObligation where
  id : String

/-- Only `audit` without parameters is dischargeable, by the gate itself. -/
def dischargePlan : List Obligation → Except UnhonorableObligation Unit
  | [] => .ok ()
  | ob :: obs =>
    if ob.id ≠ "audit" ∨ ob.params.isEmpty = false then .error ⟨ob.id⟩ else dischargePlan obs

/-! ### The lexical gate -/

/-- The first offence among the pieces of a path below the root. -/
def pregateSegments : List String → Except String Unit
  | [] => .ok ()
  | seg :: segs =>
    if seg = "" then .error "empty segment"
    else if seg = "." ∨ seg = ".." then .error "dot segment"
    else pregateSegments segs

/-- The lexical gate over a client's path, in front of any decision. -/
def lexicalPregate (path : String) : Except String Unit :=
  if !startsWithChar '/' path then .error "not absolute"
  else if path = "/" then .ok ()
  else if path.toList.getLast? = some '/' then .error "trailing slash"
  else pregateSegments (split '/' (drop 1 path))

end Maknae.Kernel
