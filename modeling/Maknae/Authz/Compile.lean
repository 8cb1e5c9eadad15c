import Maknae.Authz.Load
import Maknae.Authz.Reload

/-!
# The snapshot compiler

A snapshot is the persisted identity graph, the policy file and the binary's vocabulary, compiled
into one immutable graph, with an index from the entries a decision can cite to their rule nodes.
The compiler starts from the records of the persisted graph and only ever appends: a source node for
the policy file, the vocabulary that is not there yet, and a section with its rules for each part of
the policy.

So the compiled graph answers every question about identity as the persisted one does. What is
appended is said once, by `Grew`; each part of the compiler is shown to append only such records,
and `compiles_of_compile` puts the whole together.
-/

namespace Maknae.Authz

open Config Except List Security StateGraph Std

inductive CompileError
  /-- The layers of the persisted graph could not be read. -/
  | extract (e : IdentityError)
  | identity (message : String)
  | graph (message : String)
  /-- The compiled graph was refused. -/
  | build (e : GraphError)
  | policy (message : String)

/-- A snapshot with the graph it decides on, the graph it was compiled from, the digests of the
sections, and the problems of the load. -/
structure CompiledSnapshot extends Snapshot where
  graph : Graph
  persisted : Graph
  sections : ExtTreeMap String Digest compare
  problems : List IdentityProblem

/-! ### The compiler's state -/

structure Compiler where
  nodes : List NodeRecord
  edges : List EdgeRecord
  /-- The last node and edge identifiers. -/
  node : UInt64
  edge : UInt64
  label : String
  revision : UInt64
  sourceId : NodeId
  source : String
  /-- The identifiers of the persisted nodes and the vocabulary. -/
  ids : List ((NodeKind × String) × NodeId)
  /-- The rule each entry is cited as. -/
  index : List (Cited × RuleCitation)

abbrev Compiling := StateT Compiler (Except CompileError)

namespace Compiling

def refuse {α : Type} (e : CompileError) : Compiling α := fun _ ↦ .error e

/-- Append a node. -/
def addNode (kind : NodeKind) (key : String) (attrs : Attrs) : Compiling NodeId := fun c ↦
  let id : NodeId := ⟨c.node + 1⟩
  let n : NodeRecord := ⟨id, .kernel, kind, key, c.label, ⟨.seed, c.revision⟩, c.revision, attrs⟩
  .ok (id, { c with node := c.node + 1, nodes := c.nodes ++ [n] })

/-- Append an edge. -/
def addEdge (source : NodeId) (kind : EdgeKind) (target : NodeId) : Compiling Unit := fun c ↦
  let e : EdgeRecord :=
    ⟨⟨c.edge + 1⟩, .kernel, source, target, kind, c.label, ⟨.seed, c.revision⟩, c.revision, ∅⟩
  .ok ((), { c with edge := c.edge + 1, edges := c.edges ++ [e] })

/-- The node of a kind and a key. -/
def idOf (kind : NodeKind) (key : String) : Compiling NodeId := fun c ↦
  match c.ids.lookup (kind, key) with
  | some id => .ok (id, c)
  | none => .error (.policy s!"`{key}` is not in the compiled vocabulary")

/-- Append the section of a part of the policy file. -/
def addSection (name : String) (digests : ExtTreeMap String Digest compare) (parent : String) :
    Compiling (NodeId × String) := fun c ↦
  match digests[parent]? with
  | none => .error (.policy s!"no digest for section `{parent}`")
  | some d =>
    let source := c.source
    let key := s!"{source}#{name}"
    let run : Compiling (NodeId × String) := do
      let id ← addNode sectionKind key (strAttrs [(attrSha256, hex d)])
      addEdge id partOf c.sourceId
      return (id, key)
    run c

/-- Record what an entry is cited as, unless an earlier entry with the same text is. -/
def cite (cited : Cited) (citation : RuleCitation) : Compiling Unit := fun c ↦
  match c.index.lookup cited with
  | some _ => .ok ((), c)
  | none => .ok ((), { c with index := c.index ++ [(cited, citation)] })

/-- Append a rule of a section. -/
def addRule (key : String) (attrs : Attrs) (sec : NodeId × String) (cited : Cited) :
    Compiling NodeId := do
  let id ← addNode rule key attrs
  addEdge id declaredBy sec.1
  cite cited ⟨id.val, key, sec.2⟩
  return id

/-! ### The parts -/

def attrClass : String := "class"
def attrEntry : String := "entry"
def attrEffect : String := "effect"
def attrTerm : String := "term"
def attrDestination : String := "destination"

/-- Append a node of the vocabulary, unless it is there. -/
def addVocabularyNode (cn : CompiledNode) : Compiling Unit := fun c ↦
  match c.ids.lookup (cn.kind, cn.key) with
  | some _ => .ok ((), c)
  | none =>
    let id : NodeId := ⟨c.node + 1⟩
    let n : NodeRecord := ⟨id, .kernel, cn.kind, cn.key, cn.label, ⟨.compiled, 0⟩, 0, cn.attrs⟩
    .ok ((), { c with
      node := c.node + 1, nodes := c.nodes ++ [n], ids := ((cn.kind, cn.key), id) :: c.ids })

/-- The class a term of the vocabulary names. -/
def termClass (t : CompiledNode) : String :=
  match t.attrs[attrClass]? with
  | some (.str s) => s
  | _ => ""

/-- The node of the class of a term. -/
def classId (t : CompiledNode) : Compiling NodeId := fun c ↦
  match c.ids.lookup (classKind, termClass t) with
  | some id => .ok (id, c)
  | none =>
    let key := t.key
    .error (.graph s!"term `{key}` names no compiled class")

/-- Join a term of the vocabulary to its class. -/
def addMembership (t : CompiledNode) : Compiling Unit := do
  let source ← idOf term t.key
  let target ← classId t
  addEdge source memberOf target

/-- The edge and the word of an effect. -/
def effectAttrs : Effect → EdgeKind × String
  | .allow => (permits, "allow")
  | .deny => (denies, "deny")

/-- The policy file has a permissions section. -/
def permissionsDeclared (canonical : Option String) (deny allow : List String) :
    Compiling Bool :=
  if canonical.isSome then pure true
  else if deny.isEmpty && allow.isEmpty then pure false
  else
    let d := deny.length
    let a := allow.length
    refuse (.policy s!"{d} deny and {a} allow permissions entries without a permissions section")

/-- One site permission. -/
def addPermission (admin user : NodeId) (sec : NodeId × String) (effect : Effect)
    (entry : String × ℕ) : Compiling Unit := do
  let (edge, word) := effectAttrs effect
  let i := entry.2
  let id ← addRule s!"rule:permissions:{word}:{i}"
    (strAttrs [(attrEntry, entry.1), (attrEffect, word)]) sec (.path effect entry.1)
  addEdge admin edge id
  addEdge user edge id

/-- The site permissions. -/
def addPermissions (policy : PolicyFile) (digests : ExtTreeMap String Digest compare)
    (admin user : NodeId) : Compiling Unit := do
  let lists := policy.permissions
  if ← permissionsDeclared policy.sections["permissions"]? lists.denySources lists.allowSources then
    let sec ← addSection "permissions" digests "permissions"
    lists.denySources.zipIdx.forM (addPermission admin user sec .deny)
    lists.allowSources.zipIdx.forM (addPermission admin user sec .allow)

/-- The role of a key. -/
def roleOf (key : String) : Compiling Role :=
  match Role.fromKey key with
  | some r => pure r
  | none => refuse (.policy s!"`{key}` is not a role")

/-- The terms of an entry of a role. -/
def termsOfEntry (key : String) (role : Role) (p : ActionPattern) : Compiling (List String) :=
  match roleTerms key role p with
  | .ok terms => pure terms
  | .error e => refuse (.policy e.message)

/-- Join a rule to a term. -/
def addMatch (id : NodeId) (t : String) : Compiling Unit := do
  let termId ← idOf term t
  addEdge id matchesKind termId

/-- One action entry of a role. -/
def addGrant (key : String) (role : Role) (roleId : NodeId) (sec : NodeId × String)
    (effect : Effect) (entry : ActionPattern × ℕ) : Compiling Unit := do
  let (edge, word) := effectAttrs effect
  let terms ← termsOfEntry key role entry.1
  let written := entry.1.source
  let i := entry.2
  let id ← addRule s!"rule:roles.{key}:{word}:{i}"
    (strAttrs [(attrTerm, written), (attrEffect, word)]) sec (.grant role.key written effect)
  terms.forM (addMatch id)
  addEdge roleId edge id

/-- The action entries of a role. -/
def addGrants (digests : ExtTreeMap String Digest compare) (member : String × RawActionGrants) :
    Compiling Unit := do
  let key := member.1
  let role ← roleOf key
  let roleId ← idOf roleKind role.key
  let sec ← addSection s!"roles.{key}" digests "roles"
  member.2.deny.zipIdx.forM (addGrant key role roleId sec .deny)
  member.2.allow.zipIdx.forM (addGrant key role roleId sec .allow)

/-- One destination of a role. -/
def addDestination (key : String) (role : Role) (roleId : NodeId) (sec : NodeId × String)
    (entry : String × ℕ) : Compiling Unit := do
  let i := entry.2
  let id ← addRule s!"rule:destinations.{key}:allow:{i}"
    (strAttrs [(attrDestination, entry.1)]) sec (.destination role.key entry.1)
  addEdge roleId permits id

/-- The destinations of a role. -/
def addDestinations (digests : ExtTreeMap String Digest compare)
    (member : String × List String) : Compiling Unit := do
  let key := member.1
  let role ← roleOf key
  let roleId ← idOf roleKind role.key
  let sec ← addSection s!"destinations.{key}" digests "destinations"
  member.2.zipIdx.forM (addDestination key role roleId sec)

/-- One entry of a subject's own permission lists. -/
def addSubjectPermission (name : String) (sec : NodeId × String) (effect : Effect)
    (entry : String × ℕ) : Compiling Unit := do
  let word := (effectAttrs effect).2
  let i := entry.2
  let _ ← addRule s!"rule:subjects.{name}.permissions:{word}:{i}"
    (strAttrs [(attrEntry, entry.1), (attrEffect, word)]) sec (.subjectPath name effect entry.1)
  return

/-- A subject's own permission lists. -/
def addSubjectPermissions (sec : NodeId × String) (member : String × SubjectPermissions) :
    Compiling Unit := do
  member.2.denySources.zipIdx.forM (addSubjectPermission member.1 sec .deny)
  member.2.allowSources.zipIdx.forM (addSubjectPermission member.1 sec .allow)

/-- The subjects that have permission lists of their own. -/
def limitedSubjects (policy : PolicyFile) : List (String × SubjectPermissions) :=
  policy.subjects.toList.filterMap fun m ↦ m.2.permissions.map fun p ↦ (m.1, p)

def addSubjects (policy : PolicyFile) (digests : ExtTreeMap String Digest compare) :
    Compiling Unit := do
  if !(limitedSubjects policy).isEmpty then
    let sec ← addSection "subjects" digests "subjects"
    (limitedSubjects policy).forM (addSubjectPermissions sec)

/-- Append everything the policy file and the vocabulary add. -/
def all (policy : PolicyFile) (destinations : DestinationGrants) (vocabulary : CompiledSet)
    (digests : ExtTreeMap String Digest compare) : Compiling Unit := do
  let source ← modifyGet fun c ↦ (c.source, c)
  let sourceId ← addNode configSource source ∅
  modify fun c ↦ { c with sourceId }
  vocabulary.nodes.forM addVocabularyNode
  (vocabulary.nodes.filter fun n ↦ n.kind = term).forM addMembership
  let admin ← idOf roleKind "admin"
  let user ← idOf roleKind "user"
  addPermissions policy digests admin user
  policy.actionGrants.toList.forM (addGrants digests)
  destinations.toList.forM (addDestinations digests)
  addSubjects policy digests

end Compiling

/-! ### The problems of a snapshot -/

/-- The roles a printed entry is listed under. -/
def listedUnder (bindings : Bindings) (name : String) : List (String × String) :=
  ((bindings.roles.toList.flatMap fun map ↦ map.toList).filter fun role ↦
    role.2.any fun e ↦ e.render = name).filterMap fun role ↦
      (Role.fromKey role.1).map fun r ↦ (name, r.key)

/-- What an unbound conflict of a uid listed. -/
def foldedConflict (problems : List IdentityProblem) (bindings : Bindings) (uid : UInt32) :
    Option (List (String × String)) :=
  problems.findSome? fun
    | .unbound u names _ => if u = uid then some (names.flatMap (listedUnder bindings)) else none
    | _ => none

/-- An unresolved adversary name that was carried forward, said so. -/
def carriedProblem (problems : List IdentityProblem) (carried : List Carried)
    (bindings : Bindings) : IdentityProblem → IdentityProblem
  | .unresolvedAdversary name =>
    match carried.find? fun c ↦ c.name = name with
    | some c =>
      let first := (carried.find? fun f ↦ f.uid = c.uid).map Carried.name
      let fold := if first = some c.name then foldedConflict problems bindings c.uid else none
      .carriedForward c.uid c.name
        ((c.overrides.filterMap fun e ↦ (Role.fromKey e.role).map fun r ↦ (e.name, r.key)) ++
          fold.getD [])
    | none => .unresolvedAdversary name
  | p => p

/-- The problems of the load, with every carried name said so; an unbound conflict on a carried uid
is folded into it. -/
def carriedProblems (problems : List IdentityProblem) (carried : List Carried)
    (bindings : Bindings) : List IdentityProblem :=
  (problems.filter fun
    | .unbound uid _ _ => !carried.any fun c ↦ c.uid = uid
    | _ => true).map (carriedProblem problems carried bindings)

/-! ### The compiler -/

/-- The state the compiler starts in. -/
def Compiler.start (persisted : Graph) (label source : String) : Compiler where
  nodes := persisted.nodes
  edges := persisted.edges
  node := (persisted.nodes.map fun n ↦ n.id.val).foldl max 0
  edge := (persisted.edges.map fun e ↦ e.id.val).foldl max 0
  label := label
  revision := persisted.revision
  sourceId := ⟨0⟩
  source := source
  ids := (persisted.nodes.map fun n ↦ ((n.kind, n.key), n.id)).reverse
  index := []

/-- Report a policy error as an error of the compiler. -/
def ofPolicyError {α : Type} : Except AuthzBasicError α → Outcome CompileError α
  | .ok a => .ok a
  | .error e => Outcome.fail (.policy e.message)

/-- Report the errors of a graph as errors of the compiler. -/
def ofBuildError {α : Type} : Outcome GraphError α → Outcome CompileError α
  | .ok a => .ok a
  | .error (.error e) => Outcome.fail (.build e)
  | .error .panicked => Outcome.panicked

/-- Compile a snapshot. The persisted identity layer must be the one the load declares. -/
def compile (persisted : Graph) (input : PolicyInput) (vocabulary : CompiledSet)
    (digests : ExtTreeMap String Digest compare) : Outcome CompileError CompiledSnapshot :=
  match Identity.extract persisted with
  | .error e => Outcome.fail (.extract e)
  | .ok stored =>
    match compileIdentity stored.layer input.toPolicySource digests["bindings"]? with
    | .error m => Outcome.fail (.identity m)
    | .ok carried => do
      let actionGrants ← ofPolicyError (validateGrants input.policy.actionGrants)
      let destinations ← ofPolicyError (validateDestinations input.policy.destinations)
      let start := Compiler.start persisted stored.layer.label input.policySource
      if (start.ids.lookup (configSource, stored.layer.source)).isNone then
        Outcome.fail (.identity "no bindings source node")
      else
        match Compiling.all input.policy destinations vocabulary digests start with
        | .error e => Outcome.fail e
        | .ok (_, c) => do
          let builder : GraphBuilder := ⟨.kernel, persisted.revision, c.nodes, c.edges⟩
          let graph ← ofBuildError (builder.build kernelSchema vocabulary)
          return {
            loaded := {
              policy := input.policy.permissions
              roles := .new graph stored.layer.source
              actionGrants, destinations
              subjects := input.subjects }
            cite := fun cited ↦ c.index.lookup cited
            graph, persisted
            sections := digests
            problems := carriedProblems input.resolved.problems carried input.bindings }

/-! ### What the compiler appends -/

/-- A node that says nothing about identity: no subject, and no bindings section. -/
def Apart (vocabulary : CompiledSet) (n : NodeRecord) : Prop :=
  n.kind = configSource ∨ n.kind = rule ∨
    (n.kind = sectionKind ∧ ∀ source, n.key ≠ bindingsSectionKey source) ∨
    ∃ v ∈ vocabulary.nodes, n.kind = v.kind

/-- The compiler went from one state to another by appending nodes that are apart from identity and
edges that give no role. -/
structure Grew (vocabulary : CompiledSet) (c c' : Compiler) : Prop where
  nodes : ∃ ns, c'.nodes = c.nodes ++ ns ∧ ∀ n ∈ ns, Apart vocabulary n
  edges : ∃ es, c'.edges = c.edges ++ es ∧ ∀ e ∈ es, e.kind ≠ binds ∧ e.kind ≠ contained

section Grows

variable {vocabulary : CompiledSet} {α β γ : Type}

theorem Grew.refl (c : Compiler) : Grew vocabulary c c :=
  ⟨⟨[], by simp⟩, [], by simp⟩

theorem Grew.trans {c c' c''} (h : Grew vocabulary c c') (h' : Grew vocabulary c' c'') :
    Grew vocabulary c c'' := by
  obtain ⟨⟨ns, hns, hapart⟩, es, hes, hkind⟩ := h
  obtain ⟨⟨ns', hns', hapart'⟩, es', hes', hkind'⟩ := h'
  refine ⟨⟨ns ++ ns', by rw [hns', hns, append_assoc], ?_⟩,
    es ++ es', by rw [hes', hes, append_assoc], ?_⟩
  · exact forall_mem_append.mpr ⟨hapart, hapart'⟩
  · exact forall_mem_append.mpr ⟨hkind, hkind'⟩

/-- A step of the compiler that only grows its state so. -/
def Grows (vocabulary : CompiledSet) (m : Compiling α) : Prop :=
  ∀ c a c', m c = .ok (a, c') → Grew vocabulary c c'

theorem compiling_bind_eq_ok {m : Compiling α} {f : α → Compiling β} {c c''} {b} :
    (m >>= f) c = .ok (b, c'') ↔ ∃ a c', m c = .ok (a, c') ∧ f a c' = .ok (b, c'') := by
  show (m c >>= fun p ↦ f p.1 p.2) = _ ↔ _
  rw [bind_eq_ok]
  exact ⟨fun ⟨p, hp, h⟩ ↦ ⟨p.1, p.2, hp, h⟩, fun ⟨a, c', hm, h⟩ ↦ ⟨(a, c'), hm, h⟩⟩

namespace Grows

theorem pure (a : α) : Grows vocabulary (Pure.pure a : Compiling α) := by
  intro c b c' h
  cases pure_eq_ok.mp h
  exact .refl c

theorem refuse (e : CompileError) : Grows vocabulary (Compiling.refuse e : Compiling α) := nofun

variable {m : Compiling α} {f : α → Compiling β}

/-- The rest of a sequence may use that its first step succeeded. -/
theorem bind_of (hm : Grows vocabulary m)
    (hf : ∀ c a c', m c = .ok (a, c') → Grows vocabulary (f a)) : Grows vocabulary (m >>= f) := by
  intro c b c'' h
  obtain ⟨a, c', ha, h⟩ := compiling_bind_eq_ok.mp h
  exact (hm c a c' ha).trans (hf c a c' ha c' b c'' h)

theorem bind (hm : Grows vocabulary m) (hf : ∀ a, Grows vocabulary (f a)) :
    Grows vocabulary (m >>= f) :=
  hm.bind_of fun _ a _ _ ↦ hf a

theorem forM {f : γ → Compiling PUnit} {l : List γ} (h : ∀ a ∈ l, Grows vocabulary (f a)) :
    Grows vocabulary (l.forM f) := by
  induction l with
  | nil => exact pure _
  | cons a l ih =>
    obtain ⟨ha, hl⟩ := forall_mem_cons.mp h
    exact ha.bind fun _ ↦ ih hl

end Grows

open Compiling

variable {key : String} {name : String}

theorem grows_addNode {kind attrs}
    (h : ∀ n : NodeRecord, n.kind = kind → n.key = key → Apart vocabulary n) :
    Grows vocabulary (addNode kind key attrs) := by
  intro c id c' hadd
  cases hadd
  exact ⟨⟨_, rfl, forall_mem_singleton.mpr (h _ rfl rfl)⟩, [], by simp⟩

theorem grows_addEdge {source target kind} (hbinds : kind ≠ binds)
    (hcontained : kind ≠ contained) : Grows vocabulary (addEdge source kind target) := by
  intro c u c' hadd
  cases hadd
  exact ⟨⟨[], by simp⟩, _, rfl, forall_mem_singleton.mpr ⟨hbinds, hcontained⟩⟩

theorem grows_idOf (kind : NodeKind) (key : String) : Grows vocabulary (idOf kind key) := by
  intro c id c' h
  unfold idOf at h
  split at h
  · cases h
    exact .refl c
  · cases h

/-- The name of a section of the policy file is not that of the bindings. -/
def PlainName (name : String) : Prop := '#' ∉ name.toList ∧ name ≠ "bindings"

instance (name : String) : Decidable (PlainName name) := inferInstanceAs (Decidable (_ ∧ _))

/-- What follows the last separator of a section key is the name. -/
theorem ne_bindingsSectionKey (h : PlainName name) (source source' : String) :
    s!"{source}#{name}" ≠ bindingsSectionKey source' := by
  intro heq
  have heq' : source ++ "#" ++ name = source' ++ "#bindings" := heq
  have hkey : source.toList ++ '#' :: name.toList = source'.toList ++ '#' :: "bindings".toList := by
    simpa using congrArg String.toList heq'
  have hrev := congrArg reverse hkey
  simp only [reverse_append, reverse_cons, append_assoc, singleton_append]
    at hrev
  -- neither name holds the separator, so both texts are cut at the same place
  have hcut : ∀ (a : List Char) (r : List Char), '#' ∉ a →
      (a.reverse ++ '#' :: r).takeWhile (· ≠ '#') = a.reverse := by
    intro a r ha
    rw [takeWhile_append_of_pos]
    · simp
    · intro x hx
      have : x ∈ a := mem_reverse.mp hx
      simpa using fun hx' : x = '#' ↦ ha (hx' ▸ this)
  have hname := congrArg (takeWhile (· ≠ '#')) hrev
  rw [hcut _ _ h.1] at hname
  exact h.2 (String.toList_inj.mp (reverse_injective hname))

theorem grows_addSection (h : PlainName name) (digests : ExtTreeMap String Digest compare)
    (parent : String) :
    Grows vocabulary (addSection name digests parent) := by
  intro c sec c' hsec
  unfold addSection at hsec
  split at hsec
  · cases hsec
  · refine (Grows.bind (grows_addNode fun n hkind hkey ↦ ?_) fun id ↦
      (grows_addEdge (by decide) (by decide)).bind fun _ ↦ .pure _) c sec c' hsec
    refine .inr (.inr (.inl ⟨hkind, fun source ↦ ?_⟩))
    rw [hkey]
    exact ne_bindingsSectionKey h _ source

theorem grows_addRule (key : String) (attrs : Attrs) (sec : NodeId × String) (cited : Cited) :
    Grows vocabulary (addRule key attrs sec cited) := by
  refine (grows_addNode fun n hkind _ ↦ .inr (.inl hkind)).bind fun id ↦
    (grows_addEdge (by decide) (by decide)).bind fun _ ↦ ?_
  refine Grows.bind (fun c u c' h ↦ ?_) fun _ ↦ .pure id
  unfold cite at h
  split at h
  all_goals
    cases h
    exact ⟨⟨[], by simp⟩, [], by simp⟩

theorem grows_addVocabularyNode {cn} (h : cn ∈ vocabulary.nodes) :
    Grows vocabulary (addVocabularyNode cn) := by
  intro c u c' hadd
  unfold addVocabularyNode at hadd
  split at hadd
  · cases hadd
    exact .refl c
  · cases hadd
    exact ⟨⟨_, rfl, forall_mem_singleton.mpr (.inr (.inr (.inr ⟨cn, h, rfl⟩)))⟩, [], by simp⟩

theorem grows_addMembership (t : CompiledNode) : Grows vocabulary (addMembership t) := by
  refine (grows_idOf _ _).bind fun source ↦ Grows.bind (fun c id c' h ↦ ?_) fun target ↦
    grows_addEdge (by decide) (by decide)
  unfold classId at h
  split at h
  · cases h
    exact .refl c
  · cases h

theorem effectAttrs_ne (effect : Effect) :
    (effectAttrs effect).1 ≠ binds ∧ (effectAttrs effect).1 ≠ contained := by
  cases effect <;> decide

theorem grows_addPermissions (policy : PolicyFile) (digests : ExtTreeMap String Digest compare)
    (admin user : NodeId) : Grows vocabulary (addPermissions policy digests admin user) := by
  have hentry : ∀ sec effect entry,
      Grows vocabulary (addPermission admin user sec effect entry) := by
    intro sec effect entry
    obtain ⟨hbinds, hcontained⟩ := effectAttrs_ne effect
    exact (grows_addRule _ _ _ _).bind fun id ↦
      (grows_addEdge hbinds hcontained).bind fun _ ↦ grows_addEdge hbinds hcontained
  refine Grows.bind ?_ fun declared ↦ ?_
  · unfold permissionsDeclared
    split_ifs
    · exact .pure _
    · exact .pure _
    · exact .refuse _
  · cases declared with
    | false => exact .pure _
    | true =>
      exact (grows_addSection (by decide) _ _).bind fun sec ↦
        (Grows.forM fun entry _ ↦ hentry _ _ _).bind fun _ ↦ Grows.forM fun entry _ ↦ hentry _ _ _

/-- A role's key is plain, and so are the names made from it. -/
theorem plainName_of_roleOf {role c c'} (h : roleOf key c = .ok (role, c')) :
    PlainName s!"roles.{key}" ∧ PlainName s!"destinations.{key}" := by
  have hsome : Role.fromKey key ≠ none := fun hnone ↦ by
    rw [roleOf, hnone] at h
    cases h
  unfold Role.fromKey at hsome
  split_ifs at hsome
  all_goals first | (subst key; decide) | exact absurd rfl hsome

theorem grows_roleOf (key : String) : Grows vocabulary (roleOf key) := by
  unfold roleOf
  split
  · exact .pure _
  · exact .refuse _

theorem grows_addGrants (digests : ExtTreeMap String Digest compare)
    (member : String × RawActionGrants) :
    Grows vocabulary (Compiling.addGrants digests member) := by
  have hentry : ∀ role roleId sec effect entry,
      Grows vocabulary (addGrant member.1 role roleId sec effect entry) := by
    intro role roleId sec effect entry
    obtain ⟨hbinds, hcontained⟩ := effectAttrs_ne effect
    refine Grows.bind ?_ fun terms ↦ (grows_addRule _ _ _ _).bind fun id ↦
      (Grows.forM fun t _ ↦ ?_).bind fun _ ↦ grows_addEdge hbinds hcontained
    · unfold termsOfEntry
      split
      · exact .pure _
      · exact .refuse _
    · exact (grows_idOf _ _).bind fun termId ↦ grows_addEdge (by decide) (by decide)
  refine (grows_roleOf member.1).bind_of fun _ role _ hrole ↦ (grows_idOf _ _).bind fun roleId ↦
    (grows_addSection (plainName_of_roleOf hrole).1 _ _).bind fun sec ↦ ?_
  exact (Grows.forM fun entry _ ↦ hentry _ _ _ _ _).bind fun _ ↦
    Grows.forM fun entry _ ↦ hentry _ _ _ _ _

theorem grows_addDestinations (digests : ExtTreeMap String Digest compare)
    (member : String × List String) : Grows vocabulary (addDestinations digests member) := by
  refine (grows_roleOf member.1).bind_of fun _ role _ hrole ↦ (grows_idOf _ _).bind fun roleId ↦
    (grows_addSection (plainName_of_roleOf hrole).2 _ _).bind fun sec ↦ ?_
  exact Grows.forM fun entry _ ↦ (grows_addRule _ _ _ _).bind fun id ↦
    grows_addEdge (by decide) (by decide)

theorem grows_addSubjects (policy : PolicyFile) (digests : ExtTreeMap String Digest compare) :
    Grows vocabulary (addSubjects policy digests) := by
  have hentry : ∀ name sec effect entry,
      Grows vocabulary (addSubjectPermission name sec effect entry) :=
    fun _ _ _ _ ↦ (grows_addRule _ _ _ _).bind fun _ ↦ .pure _
  unfold addSubjects
  split_ifs
  · exact (grows_addSection (by decide) _ _).bind fun sec ↦ Grows.forM fun member _ ↦
      (Grows.forM fun entry _ ↦ hentry _ _ _ _).bind fun _ ↦ Grows.forM fun entry _ ↦ hentry _ _ _ _
  · exact .pure _

/-- **The compiler only appends**, and nothing about identity. -/
theorem grows_all (policy : PolicyFile) (destinations : DestinationGrants)
    (digests : ExtTreeMap String Digest compare) :
    Grows vocabulary (Compiling.all policy destinations vocabulary digests) := by
  have hsame : ∀ {α : Type} (f : Compiler → α × Compiler), (∀ c, (f c).2.nodes = c.nodes) →
      (∀ c, (f c).2.edges = c.edges) → Grows vocabulary (modifyGet f : Compiling α) := by
    intro α f hnodes hedges c a c' h
    obtain ⟨-, rfl⟩ := Prod.mk.inj (ok.inj h)
    exact ⟨⟨[], by rw [hnodes, append_nil], nofun⟩, [], by rw [hedges, append_nil], nofun⟩
  refine (hsame _ (fun _ ↦ rfl) fun _ ↦ rfl).bind fun source ↦
    (grows_addNode fun n hkind _ ↦ .inl hkind).bind fun sourceId ↦
    (hsame (fun c ↦ ((), { c with sourceId })) (fun _ ↦ rfl) fun _ ↦ rfl).bind fun _ ↦
    (Grows.forM fun cn hcn ↦ grows_addVocabularyNode hcn).bind fun _ ↦
    (Grows.forM fun t _ ↦ grows_addMembership t).bind fun _ ↦
    (grows_idOf _ _).bind fun admin ↦ (grows_idOf _ _).bind fun user ↦
    (grows_addPermissions _ _ _ _).bind fun _ ↦
    (Grows.forM fun member _ ↦ grows_addGrants _ member).bind fun _ ↦
    (Grows.forM fun member _ ↦ grows_addDestinations _ member).bind fun _ ↦ ?_
  exact grows_addSubjects _ _

end Grows

/-! ### A compiled snapshot -/

/-- What a compiled snapshot is made of. -/
structure Compiles (persisted : Graph) (input : PolicyInput) (vocabulary : CompiledSet)
    (digests : ExtTreeMap String Digest compare) (stored : Extracted)
    (snap : CompiledSnapshot) : Prop where
  extract_eq : Identity.extract persisted = .ok stored
  /-- The persisted layer is the one the load declares, carried onto itself. -/
  layer_eq : stored.layer = (carryForward
    (input.identityLayer stored.layer.label digests["bindings"]?) input.unresolvedAdversaries
    stored.layer).1
  problems_eq : snap.problems = carriedProblems input.resolved.problems (carryForward
    (input.identityLayer stored.layer.label digests["bindings"]?) input.unresolvedAdversaries
    stored.layer).2 input.bindings
  policy_eq : snap.loaded.policy = input.policy.permissions
  grants_eq : validateGrants input.policy.actionGrants = .ok snap.loaded.actionGrants
  destinations_eq : validateDestinations input.policy.destinations = .ok snap.loaded.destinations
  subjects_eq : snap.loaded.subjects = input.subjects
  roles_eq : snap.loaded.roles = .new snap.graph stored.layer.source
  persisted_eq : snap.persisted = persisted
  sections_eq : snap.sections = digests
  /-- The graph is the persisted one with what the compiler appended. -/
  graph_eq : ∃ c bytes,
    Grew vocabulary (.start persisted stored.layer.label input.policySource) c ∧
    GraphBuilder.buildEncoded ⟨.kernel, persisted.revision, c.nodes, c.edges⟩ kernelSchema
      vocabulary = .ok (snap.graph, bytes)

theorem ofPolicyError_eq_ok {α : Type} {x : Except AuthzBasicError α} {a}
    (h : ofPolicyError x = .ok a) : x = .ok a := by
  cases x with
  | error e => cases h
  | ok b => exact congrArg ok (ok.inj h)

theorem ofBuildError_eq_ok {α : Type} {x : Outcome GraphError α} {a}
    (h : ofBuildError x = .ok a) : x = .ok a := by
  rcases x with (_ | _) | b
  · cases h
  · cases h
  · exact congrArg ok (ok.inj h)

theorem compileIdentity_eq_ok {stored : IdentityLayer} {source : PolicySource}
    {bindingsSha256 : Option Digest} {carried : List Carried}
    (h : compileIdentity stored source bindingsSha256 = .ok carried) :
    carryForward (source.identityLayer stored.label bindingsSha256) source.unresolvedAdversaries
      stored = (stored, carried) := by
  unfold compileIdentity at h
  dsimp only at h
  split_ifs at h with hne
  exact Prod.ext (not_not.mp hne).symm (ok.inj h)

/-- **A snapshot that compiled.** -/
theorem compiles_of_compile {persisted input vocabulary}
    {digests : ExtTreeMap String Digest compare} {snap}
    (h : compile persisted input vocabulary digests = .ok snap) :
    ∃ stored, Compiles persisted input vocabulary digests stored snap := by
  unfold compile at h
  split at h
  · cases h
  rename_i stored hextract
  split at h
  · cases h
  rename_i carried hidentity
  obtain ⟨grants, hgrants, destinations, hdestinations, h⟩ := bind₂_eq_ok.mp h
  dsimp only at h
  split_ifs at h
  · cases h
  split at h
  · cases h
  rename_i u c hall
  obtain ⟨graph, hgraph, h⟩ := bind_eq_ok.mp h
  obtain ⟨⟨graph, bytes⟩, hencoded, rfl⟩ := bind_pure_eq_ok.mp (ofBuildError_eq_ok hgraph)
  obtain rfl := pure_eq_ok.mp h
  have hcarry := compileIdentity_eq_ok hidentity
  exact ⟨stored, {
    extract_eq := hextract
    layer_eq := (congrArg Prod.fst hcarry).symm
    problems_eq := by rw [hcarry]
    policy_eq := rfl
    grants_eq := ofPolicyError_eq_ok hgrants
    destinations_eq := ofPolicyError_eq_ok hdestinations
    subjects_eq := rfl
    roles_eq := rfl
    persisted_eq := rfl
    sections_eq := rfl
    graph_eq := ⟨c, bytes, grows_all _ _ _ _ u c hall, hencoded⟩ }⟩

end Maknae.Authz
