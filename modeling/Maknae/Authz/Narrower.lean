import Maknae.Authz.RoleSpec

/-!
# Narrower policy files

One pair of policy files is narrower than another (`Narrower`) when it denies all that the other
denies and allows nothing beyond it, section by section. What this says about the loaded policies is
read off their parts: the lists a request is matched against, the granted terms, the destinations,
the limits of the subject and its role. The permits are then compared through
`decideLoadedCited_isPermit_iff` alone, so neither the order of the entries nor the one that is
cited matters anywhere here.

With fewer allow entries an evaluation that failed for want of a home may answer. So files are
compared either for requests that carry a valid home (`bound`) or with the allow entries kept.
-/

namespace Maknae.Authz

open Config hiding Request
open Except List Option Security StateGraph Std.ExtTreeMap

/-! ### Narrower lists -/

/-- The patterns that deny to a subject. -/
def deniedPatterns (policy : AuthzPolicy) (subject : Option SubjectPermissions) : List Pattern :=
  policy.deny ++ subject.elim [] SubjectPermissions.deny

/-- The patterns that allow to a subject. -/
def allowedPatterns (policy : AuthzPolicy) (subject : Option SubjectPermissions) : List Pattern :=
  subject.elim policy.allow SubjectPermissions.allow

theorem flatMap_fst_lists (policy : AuthzPolicy) (subject : Option SubjectPermissions) :
    (policy.lists subject).1.flatMap SourcedList.patterns = deniedPatterns policy subject := by
  cases subject <;> simp [AuthzPolicy.lists, deniedPatterns]

theorem patterns_snd_lists (policy : AuthzPolicy) (subject : Option SubjectPermissions) :
    (policy.lists subject).2.patterns = allowedPatterns policy subject := by
  cases subject <;> rfl

/-- Two lists of entries are compared by their members: the new one denies more and allows less.
Unless a home is bound, what is allowed has to stay as it is. -/
structure NarrowerLists {α : Type} (bound : Prop) (newAllow newDeny oldAllow oldDeny : List α) :
    Prop where
  deny : oldDeny ⊆ newDeny
  allow : newAllow ⊆ oldAllow
  unbound : bound ∨ oldAllow ⊆ newAllow

section Scope

variable {bound : Prop} {new old : AuthzPolicy} {newSet oldSet : Option SubjectPermissions}

/-- Narrower lists allow no more paths, at every scope. -/
theorem evaluateScope_of_narrower
    (hlists : NarrowerLists bound (allowedPatterns new newSet) (deniedPatterns new newSet)
      (allowedPatterns old oldSet) (deniedPatterns old oldSet))
    {scope} {path} {home}
    (hhome : bound → (validHome home).isSome = true)
    (h : ∃ source, evaluateScope new newSet scope path home = .ok (.allowMatch source)) :
    ∃ source, evaluateScope old oldSet scope path home = .ok (.allowMatch source) := by
  obtain ⟨hdeny, hallow, hunbound⟩ := hlists
  rw [← flatMap_fst_lists, ← flatMap_fst_lists] at hdeny
  rw [← patterns_snd_lists, ← patterns_snd_lists] at hallow hunbound
  have hhome := hunbound.imp_left hhome
  have hreq : ∀ req p, (Pattern.wantsHome req p = true → (validHome home).isSome = true) →
      ∃ b, p.matchesReq req (validHome home) = .ok b := fun req p hw ↦
    Pattern.exists_matchesReq (by rwa [validHome_validHome])
  cases scope with
  | read => exact evaluateLists_allow_of_tighter hdeny hallow hhome (hreq (.read path)) h
  | write => exact evaluateLists_allow_of_tighter hdeny hallow hhome (hreq (.write path)) h
  | writeSubtree =>
    simp only [evaluateScope, AuthzPolicy.evaluateWriteSubtreeFloored] at h ⊢
    cases htext : path.toStr with
    | none => simp [htext] at h
    | some text =>
      simp only [htext] at h ⊢
      split_ifs at h ⊢
      · simp at h
      · exact evaluateLists_allow_of_tighter hdeny hallow hhome
          (fun p hw ↦ Pattern.exists_covers (by rwa [validHome_validHome])) h

end Scope

/-! ### Policies that permit no more -/

/-- The request carries a valid home. -/
def HasValidHome (req : Request) : Prop :=
  ∃ h, req.subject[subjectHome]? = some (.str h) ∧ (validHome (some (.ofString h))).isSome = true

/-- The parts of a loaded policy a decision about a uid reads, compared one by one. -/
structure NarrowerLoaded (bound : Prop) (new old : LoadedPolicy) (principal : Principal)
    (uid : UInt32) : Prop where
  role : ∀ r ≠ Role.adversary, new.roles.roleFor uid principal.uid = .role r →
    old.roles.roleFor uid principal.uid = .role r
  lists : NarrowerLists bound (allowedPatterns new.policy (permissionSet new.subjects[uid]?))
    (deniedPatterns new.policy (permissionSet new.subjects[uid]?))
    (allowedPatterns old.policy (permissionSet old.subjects[uid]?))
    (deniedPatterns old.policy (permissionSet old.subjects[uid]?))
  granted : ∀ key action, Granted new.actionGrants key action → Granted old.actionGrants key action
  destination : ∀ (key : String) listed, new.destinations[key]? = some listed →
    ∀ d ∈ listed, ∃ listed', old.destinations[key]? = some listed' ∧ d ∈ listed'
  limit : ∀ action, WithinLimit new.subjects[uid]? action → WithinLimit old.subjects[uid]? action
  models : ∀ e ∈ old.subjects[uid]?, ∀ listed ∈ e.models,
    ∃ e' ∈ new.subjects[uid]?, ∃ listed' ∈ e'.models, listed' ⊆ listed

section Permit

variable {bound : Prop} {new old : LoadedPolicy} {principal : Principal} {uid : UInt32}
  {req : Request}

section

variable (h : NarrowerLoaded bound new old principal uid)

include h

theorem FsAllowed.of_narrower (hhome : bound → HasValidHome req)
    (hnew : FsAllowed new req new.subjects[uid]?) : FsAllowed old req old.subjects[uid]? := by
  obtain ⟨haction, hlane, hpre, operation, scope, path, home, source, hop, hscope, hpath, hcanon,
    hcarries, hallow⟩ := hnew
  have hvalid : bound → (validHome home).isSome = true := by
    intro hbound
    obtain ⟨text, htext, hvalid⟩ := hhome hbound
    rcases hcarries with ⟨hnone, -⟩ | ⟨text', htext', rfl⟩
    · rw [hnone] at htext
      cases htext
    · obtain rfl : text = text' := by simpa [htext] using htext'
      exact hvalid
  obtain ⟨source', hold⟩ := evaluateScope_of_narrower h.lists hvalid ⟨source, hallow⟩
  exact ⟨haction, hlane, hpre, operation, scope, path, home, source', hop, hscope, hpath, hcanon,
    hcarries, hold⟩

theorem PromptAllowed.of_narrower {role} (hnew : PromptAllowed new req new.subjects[uid]? role) :
    PromptAllowed old req old.subjects[uid]? role := by
  obtain ⟨destination, listed, hdestination, hlisted, hmem⟩ := hnew.destination
  obtain ⟨listed', hlisted', hmem'⟩ := h.destination role.key listed hlisted destination hmem
  refine ⟨hnew.action_eq, h.granted _ _ hnew.granted,
    ⟨destination, listed', hdestination, hlisted', hmem'⟩, fun e he listed hl ↦ ?_⟩
  obtain ⟨e', he', listed', hl', hsub⟩ := h.models e he listed hl
  obtain ⟨model, hmodel, hmem⟩ := hnew.model e' he' listed' hl'
  exact ⟨model, hmodel, map_subset _ hsub hmem⟩

theorem Reach.of_narrower (hhome : bound → HasValidHome req) {role}
    (hnew : Reach new req new.subjects[uid]? role) : Reach old req old.subjects[uid]? role := by
  cases hnew with
  | liveness hl => exact .liveness hl
  | whoami hrole hw => exact .whoami hrole hw
  | adminTerm hrole hgrantable hclass hg =>
    exact .adminTerm hrole hgrantable hclass (h.granted _ _ hg)
  | prompt hrole hp => exact .prompt hrole (hp.of_narrower h)
  | fs hrole hf => exact .fs hrole (hf.of_narrower h hhome)

end

/-- A policy whose parts are narrower permits no more. -/
theorem isPermit_of_narrowerLoaded (h : ∀ uid, NarrowerLoaded bound new old principal uid)
    (hhome : bound → HasValidHome req)
    (hnew : (decideLoadedCited new principal req).verdict.IsPermit) :
    (decideLoadedCited old principal req).verdict.IsPermit := by
  obtain ⟨uid, huid, hpermit⟩ := (decideLoadedCited_isPermit_iff new principal req).mp hnew
  refine (decideLoadedCited_isPermit_iff old principal req).mpr ⟨uid, huid, ?_⟩
  rcases hpermit with hkernel | ⟨role, hmem, hrole, hlimit, hreach⟩
  · exact .inl hkernel
  · exact .inr ⟨role, hmem, (h uid).role role (mem_roles_iff.mp hmem) hrole,
      (h uid).limit _ hlimit, hreach.of_narrower (h uid) hhome⟩

end Permit

/-! ### Narrower files -/

/-- The two policy files of an installation. -/
structure Files where
  policy : PolicyFile
  bindings : BindingsFile

/-- The grants written for a role; a role that is not there has none. -/
def grantsAt (raw : Std.ExtTreeMap String RawActionGrants compare) (key : String) :
    RawActionGrants :=
  raw[key]?.getD ⟨[], []⟩

/-- The destinations written for a role. -/
def destinationsAt (raw : Std.ExtTreeMap String RawDestinations compare) (key : String) :
    List String :=
  (raw[key]?.getD ⟨[]⟩).allow

/-- What is written for a subject; one that is not there has no limit of any kind. -/
def subjectAt (subjects : Std.ExtTreeMap String SubjectPolicy compare) (name : String) :
    SubjectPolicy :=
  subjects[name]?.getD ⟨none, none, none⟩

/-- Every limit of the old entry is there, and none is wider. Whether the subject has its own
permission set does not change, since a set replaces the site's allow list. -/
structure NarrowerSubject (bound : Prop) (new old : SubjectPolicy) : Prop where
  own : new.permissions.isSome = old.permissions.isSome
  permissions : ∀ p' ∈ new.permissions, ∀ p ∈ old.permissions,
    NarrowerLists bound p'.allow p'.deny p.allow p.deny
  actions : ∀ l ∈ old.actions, ∃ l' ∈ new.actions,
    NarrowerLists True l'.allow l'.deny l.allow l.deny
  models : ∀ l ∈ old.models, ∃ l' ∈ new.models, l' ⊆ l

/-- The bindings name the same uids under every role but `adversary`, which names more. -/
structure NarrowerBindings (new old : Option RoleMap) : Prop where
  explicit : new = none → old = none
  adversary : entriesAt old adversary ⊆ entriesAt new adversary
  other : ∀ r ≠ Role.adversary, entriesAt new r.key = entriesAt old r.key

/-- Every section of the new files is at most as wide as that of the old. -/
structure Narrower (bound : Prop) (new old : Files) : Prop where
  site : NarrowerLists bound new.policy.permissions.allow new.policy.permissions.deny
    old.policy.permissions.allow old.policy.permissions.deny
  grants : ∀ key, NarrowerLists True (grantsAt new.policy.actionGrants key).allow
    (grantsAt new.policy.actionGrants key).deny (grantsAt old.policy.actionGrants key).allow
    (grantsAt old.policy.actionGrants key).deny
  destinations : ∀ key,
    destinationsAt new.policy.destinations key ⊆ destinationsAt old.policy.destinations key
  named : ∀ name ∈ old.policy.subjects, name ∈ new.policy.subjects
  subjects : ∀ name, NarrowerSubject bound (subjectAt new.policy.subjects name)
    (subjectAt old.policy.subjects name)
  bindings : NarrowerBindings new.bindings.roles old.bindings.roles

/-! ### What an installation decides on -/

/-- The entry a decision reads for a uid is the compiled form of what is written for it; no entry is
one without limits. -/
structure Describes (written : SubjectPolicy) (entry : Option SubjectEntry) : Prop where
  permissions : permissionSet entry = written.permissions
  actions : subjectActions written.actions = .ok (entry.bind SubjectEntry.actions)
  models : entry.bind SubjectEntry.models = written.models

theorem CompiledSubject.describes {name written entry}
    (h : CompiledSubject name written entry) : Describes written (some entry) := by
  obtain ⟨-, hpermissions, hmodels, hactions⟩ := h
  exact ⟨hpermissions, hactions, hmodels⟩

theorem describes_none : Describes ⟨none, none, none⟩ none := ⟨rfl, rfl, rfl⟩

/-- An installation: the files load against the host, the graph holds the layer the load declares
with the persisted containments carried onto it, and the snapshot is compiled from that graph. -/
structure Installation (host : String → Lookup) (files : Files) (persisted : IdentityLayer) where
  policySource : String
  identitySource : String
  input : PolicyInput
  load_eq : PolicyInput.load files.policy files.bindings host policySource identitySource =
    .ok input
  label : String
  digest : String → Digest
  graph : Graph
  built : ∃ builder schema compiled, GraphBuilder.build builder schema compiled = .ok graph
  stored : Extracted
  extract_eq : Identity.extract graph = .ok stored
  layer_eq : stored.layer = nextLayer persisted
    ⟨input.toPolicySource, label, (input.sectionDigests digest)["bindings"]?⟩
  vocabulary : CompiledSet
  snap : CompiledSnapshot
  compile_eq : compile graph input vocabulary (input.sectionDigests digest) = .ok snap

namespace Installation

variable {host : String → Lookup} {files : Files} {persisted : IdentityLayer}
  (i : Installation host files persisted)

theorem policy_eq : i.input.policy = files.policy := by
  obtain ⟨lookups, -, hload⟩ := bind_eq_ok.mp i.load_eq
  exact (PolicyInput.loaded_of_fromLookups hload).policy_eq

theorem roles_eq : i.input.bindings.roles = files.bindings.roles := by
  obtain ⟨lookups, -, hload⟩ := bind_eq_ok.mp i.load_eq
  rw [(PolicyInput.loaded_of_fromLookups hload).bindings_eq]

/-- The load knows the host's answer for every name the files have. -/
theorem getElem?_lookups {n}
    (hn : n ∈ boundNames files.bindings.toBindings ++ files.policy.subjects.keys) :
    i.input.lookups[n]? = (host n).answer := by
  obtain ⟨lookups, hresolve, hload⟩ := bind_eq_ok.mp i.load_eq
  rw [(PolicyInput.loaded_of_fromLookups hload).lookups_eq, getElem?_resolveUidMap hresolve,
    if_pos hn]

theorem exists_compiles : ∃ stored, Compiles i.graph i.input i.vocabulary
    (i.input.sectionDigests i.digest) stored i.snap :=
  compiles_of_compile i.compile_eq

theorem permissions_eq : i.snap.loaded.policy = files.policy.permissions := by
  obtain ⟨stored, hcompiles⟩ := i.exists_compiles
  rw [hcompiles.policy_eq, i.policy_eq]

theorem granted_iff {key action} :
    Granted i.snap.loaded.actionGrants key action ↔
      WrittenGrant files.policy.actionGrants key action := by
  obtain ⟨stored, hcompiles⟩ := i.exists_compiles
  rw [granted_validateGrants hcompiles.grants_eq, i.policy_eq]

theorem getElem?_destinations (key : String) :
    i.snap.loaded.destinations[key]? =
      files.policy.destinations[key]?.map RawDestinations.allow := by
  obtain ⟨stored, hcompiles⟩ := i.exists_compiles
  rw [getElem?_validateDestinations hcompiles.destinations_eq, i.policy_eq]

theorem validateSubjects_eq :
    validateSubjects files.policy i.input.lookups = .ok i.snap.loaded.subjects := by
  obtain ⟨stored, hcompiles⟩ := i.exists_compiles
  rw [hcompiles.subjects_eq, ← i.policy_eq]
  exact i.input.subjects_eq

variable {uid : UInt32} {written : SubjectPolicy} {name : String}

/-- A subject's entry is the one written for the name the host resolves to its uid. -/
theorem getElem?_subjects_iff {entry} :
    i.snap.loaded.subjects[uid]? = some entry ↔ ∃ name written,
      files.policy.subjects[name]? = some written ∧ host name = .found uid ∧
        CompiledSubject name written entry := by
  rw [validateSubjects_eq_ok i.validateSubjects_eq]
  refine exists_congr fun name ↦ exists_congr fun written ↦ and_congr_right fun hwritten ↦
    and_congr_left fun _ ↦ ?_
  have hname : name ∈ files.policy.subjects.keys := by
    rw [Std.ExtTreeMap.mem_keys, mem_iff_isSome_getElem?, hwritten]
    rfl
  rw [i.getElem?_lookups (mem_append_right _ hname)]
  cases host name <;> simp [Lookup.answer]

include i in
/-- What is written for every subject passed its check. -/
theorem exists_subjectActions (h : files.policy.subjects[name]? = some written) :
    ∃ actions, subjectActions written.actions = .ok actions := by
  obtain ⟨t, t', hstep⟩ := exists_of_mem_foldlM i.validateSubjects_eq
    (mem_toList_iff_getElem?_eq_some.mpr h)
  obtain ⟨actions, hactions, -⟩ := bind_eq_ok.mp hstep
  exact ⟨actions, hactions⟩

theorem exists_entry (hwritten : files.policy.subjects[name]? = some written)
    (hhost : host name = .found uid) :
    ∃ entry, i.snap.loaded.subjects[uid]? = some entry ∧ Describes written (some entry) := by
  obtain ⟨actions, hactions⟩ := i.exists_subjectActions hwritten
  have hentry : CompiledSubject name written ⟨name, written.permissions, actions, written.models⟩ :=
    ⟨rfl, rfl, rfl, hactions⟩
  exact ⟨_, i.getElem?_subjects_iff.mpr ⟨name, written, hwritten, hhost, hentry⟩, hentry.describes⟩

theorem roleFor_eq (uid principalUid : UInt32) :
    i.snap.loaded.roles.roleFor uid principalUid =
      directRole files.bindings.roles (found i.input.lookups) persisted.claims uid
        principalUid := by
  obtain ⟨stored, hcompiles⟩ := i.exists_compiles
  obtain rfl : stored = i.stored := ok.inj (hcompiles.extract_eq.symm.trans i.extract_eq)
  obtain ⟨builder, schema, compiled, hbuilt⟩ := i.built
  rw [hcompiles.roleFor_eq hbuilt, i.layer_eq, ← i.roles_eq]
  refine layerRole_nextLayer _ _ ?_ uid principalUid
  show ((i.input.sectionDigests i.digest)["bindings"]?).isSome = _
  rw [i.input.getElem?_sectionDigests_bindings, isSome_map, i.input.section_isSome]

end Installation

/-! ### The parts of narrower files -/

variable {key action : String} {new old : Option RoleMap}

/-- The terms a role is granted, with an absent role read as one without grants. -/
theorem writtenGrant_iff {raw : Std.ExtTreeMap String RawActionGrants compare} :
    WrittenGrant raw key action ↔ ∃ role, grantRole key = .ok role ∧
      (∃ p ∈ (grantsAt raw key).allow, action ∈ termsOf key role p) ∧
      ∀ p ∈ (grantsAt raw key).deny, action ∉ termsOf key role p := by
  unfold WrittenGrant grantsAt
  cases raw[key]? with
  | none | some grants => simp

theorem WrittenGrant.of_narrower {new old : Std.ExtTreeMap String RawActionGrants compare}
    (hlists : NarrowerLists True (grantsAt new key).allow (grantsAt new key).deny
    (grantsAt old key).allow (grantsAt old key).deny) (h : WrittenGrant new key action) :
    WrittenGrant old key action := by
  obtain ⟨role, hrole, ⟨p, hp, hterm⟩, hdeny⟩ := writtenGrant_iff.mp h
  exact writtenGrant_iff.mpr
    ⟨role, hrole, ⟨p, hlists.allow hp, hterm⟩, fun q hq ↦ hdeny q (hlists.deny hq)⟩

section Describes

variable {bound : Prop} {new old : SubjectPolicy} {newEntry oldEntry : Option SubjectEntry}
  (hnarrower : NarrowerSubject bound new old) (hnew : Describes new newEntry)
  (hold : Describes old oldEntry)

include hnarrower hnew hold

theorem NarrowerSubject.lists {site' site}
    (hsite : NarrowerLists bound site'.allow site'.deny site.allow site.deny) :
    NarrowerLists bound (allowedPatterns site' (permissionSet newEntry))
      (deniedPatterns site' (permissionSet newEntry))
      (allowedPatterns site (permissionSet oldEntry))
      (deniedPatterns site (permissionSet oldEntry)) := by
  rw [hnew.permissions, hold.permissions]
  have hown := hnarrower.own
  have hpermissions := hnarrower.permissions
  cases hset : old.permissions with
  | none =>
    rw [hset, isSome_none, isSome_eq_false_iff, isNone_iff_eq_none] at hown
    rw [hown]
    simpa [allowedPatterns, deniedPatterns] using hsite
  | some set =>
    rw [hset] at hown
    obtain ⟨set', hset'⟩ := isSome_iff_exists.mp hown
    obtain ⟨hdeny, hallow, hunbound⟩ := hpermissions set' hset' set hset
    rw [hset']
    exact ⟨append_subset.mpr ⟨fun p hp ↦ mem_append_left _ (hsite.deny hp),
      fun p hp ↦ mem_append_right _ (hdeny hp)⟩, hallow, hunbound⟩

theorem NarrowerSubject.withinLimit {action} (h : WithinLimit newEntry action) :
    WithinLimit oldEntry action := by
  intro e he set hset hlimitable
  obtain rfl := mem_def.mp he
  obtain ⟨limit, hlimit, hexpand⟩ : ∃ limit, old.actions = some limit ∧
      subjectActions (some limit) = .ok (some set) := by
    have hactions := hold.actions
    rw [bind_some, mem_def.mp hset] at hactions
    cases hold' : old.actions with
    | none =>
      rw [hold'] at hactions
      cases hactions
    | some limit => exact ⟨limit, rfl, hold' ▸ hactions⟩
  obtain ⟨limit', hlimit', hlists⟩ := hnarrower.actions limit hlimit
  have hactions' := hnew.actions
  rw [mem_def.mp hlimit'] at hactions'
  obtain ⟨allow', hallow', deny', hdeny', hactions'⟩ := bind₂_eq_ok.mp hactions'
  obtain ⟨e', rfl, hset'⟩ := bind_eq_some_iff.mp (pure_eq_ok.mp hactions').symm
  obtain ⟨allow, hallow, deny, hdeny, hexpand⟩ := bind₂_eq_ok.mp hexpand
  cases pure_eq_ok.mp hexpand
  -- the terms of both limits are those their entries name
  obtain ⟨hnot, hin⟩ := h e' rfl _ hset' hlimitable
  rw [mem_expandAll hdeny'] at hnot
  rw [mem_expandAll hallow'] at hin
  rw [mem_expandAll hdeny, mem_expandAll hallow]
  refine ⟨fun ⟨p, hp, hterm⟩ ↦ hnot ⟨p, hlists.deny hp, hterm⟩, ?_⟩
  obtain ⟨p, hp, hterm⟩ := hin
  exact ⟨p, hlists.allow hp, hterm⟩

theorem NarrowerSubject.exists_models {e} (he : e ∈ oldEntry)
    {listed} (hlisted : listed ∈ e.models) :
    ∃ e' ∈ newEntry, ∃ listed' ∈ e'.models, listed' ⊆ listed := by
  obtain rfl := mem_def.mp he
  have hmodels : listed ∈ old.models := by
    rw [← hold.models]
    exact hlisted
  obtain ⟨listed', hlisted', hsub⟩ := hnarrower.models listed hmodels
  rw [← hnew.models] at hlisted'
  obtain ⟨e', he', hmem⟩ := bind_eq_some_iff.mp hlisted'
  exact ⟨e', he', listed', hmem, hsub⟩

end Describes

theorem NarrowerSubject.refl (bound : Prop) (s : SubjectPolicy) : NarrowerSubject bound s s where
  own := rfl
  permissions p' hp' p hp := by
    obtain rfl : p' = p := some.inj (hp'.symm.trans hp)
    exact ⟨List.Subset.refl _, List.Subset.refl _, .inr (List.Subset.refl _)⟩
  actions l hl := ⟨l, hl, List.Subset.refl _, List.Subset.refl _, .inl trivial⟩
  models l hl := ⟨l, hl, List.Subset.refl _⟩

/-- The role of a uid under bindings that contain more, on a host that answers the same. -/
theorem directRole_of_narrower (h : NarrowerBindings new old) {lookup' lookup}
    (hlookup : ∀ role : Role, ∀ e ∈ entriesAt old role.key, entryUid lookup' e = entryUid lookup e)
    {claims' claims}
    (hclaims : ∀ n, .name n ∈ entriesAt old StateGraph.adversary → lookup[n]? = none →
    claims'[n]? = claims[n]?) {uid principalUid} {r} (hr : r ≠ .adversary)
    (hnew : directRole new lookup' claims' uid principalUid = .role r) :
    directRole old lookup claims uid principalUid = .role r := by
  cases new with
  | none =>
    rw [h.explicit rfl]
    exact hnew
  | some map' =>
    simp only [directRole] at hnew
    split_ifs at hnew with hcontained
    · exact absurd (Resolution.role.inj hnew).symm hr
    obtain ⟨r', hsole, heq⟩ : ∃ r', soleRole (listed map' lookup' uid) = some r' ∧
        Resolution.role r' = .role r := by
      cases hsole : soleRole (listed map' lookup' uid) with
      | none => simp [hsole] at hnew
      | some r' => exact ⟨r', rfl, by simpa [hsole] using hnew⟩
    obtain rfl := Resolution.role.inj heq
    obtain ⟨hlisted, hunique⟩ := soleRole_eq_some_iff.mp hsole
    cases old with
    | none =>
      -- without bindings no role but `adversary` has entries
      obtain ⟨e, he, -⟩ := listed_eq_true_iff.mp hlisted
      rw [h.other r' hr] at he
      cases he
    | some map =>
      have hadversary : listed map lookup uid .adversary = true →
          listed map' lookup' uid .adversary = true := by
        rw [listed_eq_true_iff, listed_eq_true_iff]
        rintro ⟨e, he, huid⟩
        exact ⟨e, h.adversary he, (hlookup .adversary e he).trans huid⟩
      have hcarried : carriedFor map lookup claims uid = true →
          carriedFor map' lookup' claims' uid = true := by
        rw [carriedFor_eq_true_iff, carriedFor_eq_true_iff]
        rintro ⟨n, he, hnone, hclaim⟩
        exact ⟨n, h.adversary he, (hlookup .adversary _ he).trans hnone,
          (hclaims n he hnone).trans hclaim⟩
      have hother : ∀ q ≠ Role.adversary,
          (listed map lookup uid q = true ↔ listed map' lookup' uid q = true) := by
        intro q hq
        rw [listed_eq_true_iff, listed_eq_true_iff, h.other q hq]
        exact exists_congr fun e ↦ and_congr_right fun he ↦ by rw [hlookup _ e he]
      rw [Bool.or_eq_true, not_or] at hcontained
      have hfree : ¬(listed map lookup uid .adversary || carriedFor map lookup claims uid) =
          true := by
        rw [Bool.or_eq_true, not_or]
        exact ⟨fun hl ↦ hcontained.1 (hadversary hl), fun hc ↦ hcontained.2 (hcarried hc)⟩
      have hsole : soleRole (listed map lookup uid) = some r' := by
        refine soleRole_eq_some_iff.mpr ⟨(hother r' hr).mpr hlisted, fun q hq ↦ ?_⟩
        by_cases hq' : q = .adversary
        · subst hq'
          exact absurd (hadversary hq) hcontained.1
        · exact hunique q ((hother q hq').mp hq)
      rw [directRole, if_neg hfree, hsole]
      rfl

theorem mem_boundNames_iff {bindings n} :
    n ∈ boundNames bindings ↔ ∃ key, .name n ∈ entriesAt bindings.roles key := by
  unfold boundNames
  rw [mem_filterMap]
  cases bindings.roles with
  | none => simp [entriesAt]
  | some map =>
    simp only [mem_entriesAt, toList_some, flatMap_cons, flatMap_nil, append_nil, mem_flatMap]
    constructor
    · rintro ⟨e, ⟨⟨key, entries⟩, hmem, he⟩, hname⟩
      cases e with
      | uid u => cases hname
      | name m =>
        cases hname
        exact ⟨key, entries, mem_toList_iff_getElem?_eq_some.mp hmem, he⟩
    · rintro ⟨key, entries, hmap, he⟩
      exact ⟨.name n, ⟨(key, entries), mem_toList_iff_getElem?_eq_some.mpr hmap, he⟩, rfl⟩

theorem NarrowerBindings.subset (h : NarrowerBindings new old) (role : Role) :
    entriesAt old role.key ⊆ entriesAt new role.key := by
  by_cases hrole : role = .adversary
  · subst hrole
    exact h.adversary
  · rw [h.other role hrole]
    exact List.Subset.refl _

section Installations

variable {bound : Prop} {host : String → Lookup} {new old : Files}
  {persisted' persisted : IdentityLayer} (after : Installation host new persisted')
  (before : Installation host old persisted)

/-- The two loads resolve the bound entries alike. -/
theorem NarrowerBindings.entryUid_eq (h : NarrowerBindings new.bindings.roles old.bindings.roles)
    {role : Role} {e : BindingEntry} (he : e ∈ entriesAt old.bindings.roles role.key) :
    entryUid (found after.input.lookups) e = entryUid (found before.input.lookups) e := by
  cases e with
  | uid u => rfl
  | name n =>
    have hnew : n ∈ boundNames new.bindings.toBindings :=
      mem_boundNames_iff.mpr ⟨role.key, h.subset role he⟩
    have hold : n ∈ boundNames old.bindings.toBindings := mem_boundNames_iff.mpr ⟨role.key, he⟩
    show (found after.input.lookups)[n]? = (found before.input.lookups)[n]?
    simp only [found, getElem?_filterMap, after.getElem?_lookups (mem_append_left _ hnew),
      before.getElem?_lookups (mem_append_left _ hold)]

/-- A containment carried under the old files is carried under the new ones, whether they replace
the old files or are loaded after them. -/
theorem claims_eq_of_unresolved
    (hpersisted : persisted' = persisted ∨ persisted' = before.stored.layer) {n}
    (he : .name n ∈ entriesAt old.bindings.roles adversary)
    (hnone : (found before.input.lookups)[n]? = none) :
    persisted'.claims[n]? = persisted.claims[n]? := by
  rcases hpersisted with rfl | rfl
  · rfl
  · rw [before.layer_eq]
    refine getElem?_claims_nextLayer _ _ ?_
    cases hmap : old.bindings.roles with
    | none =>
      rw [hmap] at he
      cases he
    | some map =>
      rw [hmap] at he
      exact (mem_unresolvedAdversaries_iff (before.roles_eq.trans hmap)).mpr
        ⟨he, hnone⟩

/-- What the two installations read for a uid is written for one name. -/
theorem Narrower.exists_describes (h : Narrower bound new old) (uid : UInt32) :
    ∃ new' old', NarrowerSubject bound new' old' ∧
      Describes new' after.snap.loaded.subjects[uid]? ∧
      Describes old' before.snap.loaded.subjects[uid]? := by
  cases hold : before.snap.loaded.subjects[uid]? with
  | some entry =>
    obtain ⟨name, written, hwritten, hhost, hentry⟩ := before.getElem?_subjects_iff.mp hold
    have hmem : name ∈ new.policy.subjects := h.named name (by
      rw [mem_iff_isSome_getElem?, hwritten]
      rfl)
    obtain ⟨written', hwritten'⟩ :=
      isSome_iff_exists.mp (mem_iff_isSome_getElem?.mp hmem)
    have hsubject := h.subjects name
    rw [subjectAt, subjectAt, hwritten, hwritten'] at hsubject
    obtain ⟨entry', hentry', hdescribes⟩ := after.exists_entry hwritten' hhost
    rw [hentry']
    exact ⟨written', written, hsubject, hdescribes, hentry.describes⟩
  | none =>
    cases hnew : after.snap.loaded.subjects[uid]? with
    | none => exact ⟨_, _, .refl bound _, describes_none, describes_none⟩
    | some entry =>
      -- the old files say nothing about the name, or they would have an entry for the uid
      obtain ⟨name, written, hwritten, hhost, hentry⟩ := after.getElem?_subjects_iff.mp hnew
      have hsubject := h.subjects name
      rw [subjectAt, subjectAt, hwritten] at hsubject
      cases hwritten' : old.policy.subjects[name]? with
      | none =>
        rw [hwritten'] at hsubject
        exact ⟨_, _, hsubject, hentry.describes, describes_none⟩
      | some written' =>
        obtain ⟨entry', hentry', -⟩ := before.exists_entry hwritten' hhost
        rw [hold] at hentry'
        cases hentry'

/-- **Installations of narrower files are narrower**, part by part. -/
theorem Narrower.loaded (h : Narrower bound new old)
    (hpersisted : persisted' = persisted ∨ persisted' = before.stored.layer) (principal : Principal)
    (uid : UInt32) :
    NarrowerLoaded bound after.snap.loaded before.snap.loaded principal uid := by
  obtain ⟨new', old', hnarrower, hnew, hold⟩ := h.exists_describes after before uid
  refine ⟨fun r hr ↦ ?_, ?_, fun key action ↦ ?_, fun key listed hlisted d hd ↦ ?_,
    fun action ↦ hnarrower.withinLimit hnew hold, fun e he listed hlisted ↦
      hnarrower.exists_models hnew hold he hlisted⟩
  · rw [after.roleFor_eq, before.roleFor_eq]
    exact directRole_of_narrower h.bindings
      (fun role e he ↦ h.bindings.entryUid_eq after before he)
      (fun n ↦ claims_eq_of_unresolved before hpersisted) hr
  · rw [after.permissions_eq, before.permissions_eq]
    exact hnarrower.lists hnew hold h.site
  · rw [after.granted_iff, before.granted_iff]
    exact WrittenGrant.of_narrower (h.grants key)
  · rw [after.getElem?_destinations] at hlisted
    rw [before.getElem?_destinations]
    obtain ⟨written, hwritten, rfl⟩ := map_eq_some_iff.mp hlisted
    have hmem : d ∈ destinationsAt old.policy.destinations key := h.destinations key (by
      rw [destinationsAt, hwritten]
      exact hd)
    rw [destinationsAt] at hmem
    cases hold : old.policy.destinations[key]? with
    | none =>
      rw [hold] at hmem
      cases hmem
    | some written' =>
      rw [hold] at hmem
      exact ⟨written'.allow, rfl, hmem⟩

end Installations

end Maknae.Authz
