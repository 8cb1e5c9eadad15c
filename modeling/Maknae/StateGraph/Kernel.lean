import Maknae.StateGraph.Record

/-!
# The kernel's graph vocabulary

The node and edge kinds of the kernel's state graph, the spellings of its keys, and its schema.
-/

namespace Maknae.StateGraph

/-! ### Node kinds -/

/-- What configuration comes from: a file, or the binary. -/
def configSource : NodeKind := ⟨1⟩
/-- A part of a source. -/
def sectionKind : NodeKind := ⟨2⟩
def subjectKind : NodeKind := ⟨3⟩
def roleKind : NodeKind := ⟨4⟩
/-- What a role is permitted or denied. -/
def rule : NodeKind := ⟨5⟩
/-- What rules match. -/
def term : NodeKind := ⟨6⟩
def classKind : NodeKind := ⟨7⟩
def classificationSystem : NodeKind := ⟨8⟩
def level : NodeKind := ⟨9⟩
/-- What contained subjects are tied to. -/
def containment : NodeKind := ⟨10⟩
def pendingChange : NodeKind := ⟨11⟩
/-- How far a source is synced with its mirror. -/
def syncBaseKind : NodeKind := ⟨12⟩
/-- This deployment. -/
def instanceKind : NodeKind := ⟨13⟩

/-! ### Edge kinds -/

/-- A subject has a role. -/
def binds : EdgeKind := ⟨1⟩
/-- A subject is contained. -/
def contained : EdgeKind := ⟨2⟩
def permits : EdgeKind := ⟨3⟩
def denies : EdgeKind := ⟨4⟩
/-- A rule is about a term. -/
def matchesKind : EdgeKind := ⟨5⟩
def memberOf : EdgeKind := ⟨6⟩
def dominates : EdgeKind := ⟨7⟩
/-- The deployment uses a classification system. -/
def declares : EdgeKind := ⟨8⟩
/-- A section says so. -/
def declaredBy : EdgeKind := ⟨9⟩
/-- A node belongs to a source. -/
def partOf : EdgeKind := ⟨10⟩
def pendingFor : EdgeKind := ⟨11⟩
/-- A level belongs to a classification system. -/
def levelOf : EdgeKind := ⟨12⟩

/-- The role that contains a subject. -/
def adversary : String := "adversary"

/-- The key of a subject node, and the spelling of a bare uid wherever a name is expected. -/
def subjectKey (uid : UInt32) : String := s!"uid:{uid.toNat}"

/-- The key of the section node of a bindings source. -/
def bindingsSectionKey (source : String) : String := s!"{source}#bindings"

/-- The key of the source node that records the vocabulary's digest. -/
def vocabularySourceKey : String := "binary:vocabulary"

/-! ### Attributes -/

def attrSha256 : String := "sha256"
def attrName : String := "name"
def attrUid : String := "uid"
def attrAliases : String := "aliases"
def attrValue : String := "value"
def attrBase : String := "base"
def attrLive : String := "live"
def attrConflicts : String := "conflicts"

/-- The roles the binary compiles in, all under one label. -/
def persistedCompiledSet (label : String) : CompiledSet where
  nodes := ["admin", "user", "guest", adversary].map fun role ↦ ⟨roleKind, role, label, ∅⟩

/-- The schema of the kernel's graph. -/
def kernelSchema : Schema where
  version := 1
  nodeKinds :=
    [(configSource, "ConfigSource"), (sectionKind, "Section"), (subjectKind, "Subject"),
      (roleKind, "Role"), (rule, "Rule"), (term, "Term"), (classKind, "Class"),
      (classificationSystem, "ClassificationSystem"), (level, "Level"),
      (containment, "Containment"), (pendingChange, "PendingChange"), (syncBaseKind, "SyncBase"),
      (instanceKind, "Instance")]
  edgeKinds :=
    [(binds, "binds"), (contained, "contained"), (permits, "permits"), (denies, "denies"),
      (matchesKind, "matches"), (memberOf, "member_of"), (dominates, "dominates"),
      (declares, "declares"), (declaredBy, "declared_by"), (partOf, "part_of"),
      (pendingFor, "pending_for"), (levelOf, "level_of")]
  triples :=
    [(subjectKind, binds, roleKind), (subjectKind, contained, containment),
      (roleKind, permits, rule), (roleKind, denies, rule), (rule, matchesKind, term),
      (term, memberOf, classKind), (level, dominates, level),
      (level, levelOf, classificationSystem), (instanceKind, declares, classificationSystem),
      (sectionKind, partOf, configSource), (pendingChange, pendingFor, sectionKind),
      (subjectKind, declaredBy, sectionKind), (rule, declaredBy, sectionKind),
      (classificationSystem, declaredBy, sectionKind), (level, declaredBy, sectionKind),
      (instanceKind, declaredBy, sectionKind), (containment, declaredBy, sectionKind),
      (syncBaseKind, partOf, configSource)]
  compiledKinds := [roleKind, term, classKind]
  forbiddenTargets := [(binds, roleKind, adversary)]

end Maknae.StateGraph
