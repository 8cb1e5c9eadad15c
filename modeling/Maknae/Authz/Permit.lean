import Maknae.Authz.Decide

/-!
# When a request is permitted

The decision core is a ladder of arms. This module says what they permit in the policy's own terms,
without the ladder: `Reach` lists the ways an action can be within a role's reach, each with exactly
the data it needs, and `decideLoadedCited_isPermit_iff` shows that a permit is precisely one of them
(or the kernel containing a subject on its own behalf). Every arm has its own lemma, so a change to
one arm is a change to one lemma.
-/

namespace Maknae.Security

@[simp] theorem Verdict.not_isPermit_deny (reason : String) : ¬(Verdict.deny reason).IsPermit := id

@[simp] theorem Verdict.not_isPermit_notApplicable (note : Option String) :
    ¬(Verdict.notApplicable note).IsPermit := id

@[simp] theorem Verdict.not_isPermit_indeterminate : ¬Verdict.indeterminate.IsPermit := id

end Maknae.Security

namespace Maknae.Authz

open Config hiding Request
open Security Text Option

@[simp] theorem isPermit_permitWithAudit : permitWithAudit.IsPermit := trivial

/-! ### Exact segments -/

/-- The action is the class name itself or continues it after a dot. -/
def InSegment (c a : String) : Prop := a = c ∨ ∃ rest, a = c ++ "." ++ rest

theorem inClass_iff {a c} : inClass a c = true ↔ InSegment c a := by
  simp only [inClass, Bool.or_eq_true, beq_iff_eq, Bool.and_eq_true, List.isPrefixOf_iff_prefix]
  refine or_congr_right ⟨?_, ?_⟩
  · rintro ⟨⟨-, hdot⟩, rest, hrest⟩
    rw [← hrest] at hdot
    obtain ⟨tail, rfl⟩ : ∃ tail, rest = '.' :: tail := by
      cases rest with
      | nil => simp at hdot
      | cons x tail => exact ⟨tail, by simpa using hdot⟩
    exact ⟨String.ofList tail, String.toList_inj.mp (by simp [← hrest])⟩
  · rintro ⟨rest, rfl⟩
    simp

variable {a : String} {l : List Grant} {action : String} {scope : FsScope} {roleKey : String}
  {home : Option OsPath} {verdict : Verdict} {uid : UInt32} {principal : Principal}

theorem classOf_eq_liveness_iff :
    classOf a = some .liveness ↔ InSegment "liveness" a := by
  rw [← inClass_iff, classOf]
  by_cases h : inClass a "liveness" = true
  · simp [h]
  · simp only [h, Bool.false_eq_true, if_false]
    split_ifs <;> simp

/-- The first letter of an action is its class's. No two classes share one. -/
theorem InSegment.head?_eq {c a x cs} (h : InSegment c a)
    (hc : c.toList = x :: cs) : a.toList.head? = some x := by
  rcases h with rfl | ⟨rest, rfl⟩
  · simp [hc]
  · simp [hc]

theorem classOf_eq_admin_iff : classOf a = some .admin ↔ InSegment "admin" a := by
  rw [← inClass_iff]
  constructor
  · intro h
    unfold classOf at h
    split_ifs at h with hl ha <;> first | exact ha | cases h
  · intro h
    have hl : inClass a "liveness" = false := by
      rw [← Bool.not_eq_true, inClass_iff]
      intro hl
      have h₁ := (inClass_iff.mp h).head?_eq (x := 'a') rfl
      have h₂ := hl.head?_eq (x := 'l') rfl
      simp [h₁] at h₂
    simp [classOf, hl, h]

/-! ### Grants -/

/-- The role's own grants list the term under allow and not under deny. -/
def Granted (grants : ActionGrants) (roleKey action : String) : Prop :=
  ∃ allow deny, grants[roleKey]? = some (allow, deny) ∧
    action ∈ allow.map Prod.fst ∧ action ∉ deny.map Prod.fst

theorem find?_eq_none_iff_not_mem :
    (l.find? fun g ↦ g.1 == action) = none ↔ action ∉ l.map Prod.fst := by
  simp only [List.find?_eq_none, beq_iff_eq, List.mem_map, not_exists, not_and]

theorem exists_find?_iff_mem :
    (∃ g, (l.find? fun g ↦ g.1 == action) = some g) ↔ action ∈ l.map Prod.fst := by
  rw [← not_iff_not, ← find?_eq_none_iff_not_mem]
  cases l.find? fun g ↦ g.1 == action <;> simp

theorem evaluate3Action_allow_iff {grants roleKey action} :
    (∃ source, evaluate3Action grants roleKey action = .allowMatch source) ↔
      Granted grants roleKey action := by
  unfold evaluate3Action Granted
  cases grants[roleKey]? with
  | none => simp
  | some lists =>
    obtain ⟨allow, deny⟩ := lists
    simp only [some.injEq, Prod.mk.injEq]
    rw [show (∃ allow' deny', (allow = allow' ∧ deny = deny') ∧ action ∈ allow'.map Prod.fst ∧
      action ∉ deny'.map Prod.fst) ↔ action ∈ allow.map Prod.fst ∧ action ∉ deny.map Prod.fst by
        simp, ← find?_eq_none_iff_not_mem, ← exists_find?_iff_mem]
    cases deny.find? fun g ↦ g.1 == action with
    | some g => simp
    | none => cases allow.find? fun g ↦ g.1 == action <;> simp

/-! ### Canonical paths -/

theorem segmentViolation_eq_none_iff {segs} :
    segmentViolation segs = none ↔ ∀ seg ∈ segs, IsEntryName seg := by
  induction segs with
  | nil => simp [segmentViolation]
  | cons seg segs ih =>
    rw [segmentViolation, List.forall_mem_cons, IsEntryName]
    split_ifs <;> simp_all

/-- The path check of the decision core accepts exactly the canonical texts. -/
theorem canonicalViolation_eq_none_iff {path} :
    canonicalViolation path = none ↔ IsCanonical path := by
  unfold canonicalViolation
  constructor
  · intro h
    split_ifs at h with hnul habs hroot
    · refine ⟨by simpa using habs, by simpa using hnul, .inl hroot⟩
    · exact ⟨by simpa using habs, by simpa using hnul, .inr (segmentViolation_eq_none_iff.mp h)⟩
  · intro h
    have hnul : path.toList.contains '\x00' = false := by simpa using h.no_nul
    rw [hnul, h.absolute]
    by_cases hroot : path = "/"
    · simp [hroot]
    · simpa [hroot] using segmentViolation_eq_none_iff.mpr (h.entries.resolve_left hroot)

/-! ### The subject's own limit -/

/-- The action is one a subject's `actions:` lists can limit. -/
def Limitable (action : String) : Prop :=
  action ≠ "admin.whoami" ∧
    classOf action ∈ [some ActionClass.admin, some .session, some .fs, some .terminal, some .mcp]

/-- The subject has no `actions:` limit, or the limit lists the action under allow and not under
deny, or the action is not one that can be limited. -/
def WithinLimit (entry : Option SubjectEntry) (action : String) : Prop :=
  ∀ e ∈ entry, ∀ set ∈ e.actions, Limitable action → action ∉ set.deny ∧ action ∈ set.allow

theorem limitRefusal_eq_none_iff {name set} :
    limitRefusal name set action = none ↔ action ∉ set.deny ∧ action ∈ set.allow := by
  unfold limitRefusal
  rw [Std.ExtTreeMap.mem_iff_isSome_getElem?]
  cases set.deny[action]? with
  | some source | none => simp

theorem actionLimit_eq_none_iff {entry} :
    actionLimit entry action = none ↔ WithinLimit entry action := by
  unfold actionLimit WithinLimit
  cases entry with
  | none => simp
  | some e =>
    cases hset : e.actions with
    | none => simp [hset]
    | some set =>
      simp only [hset, bind_some, mem_def, some.injEq, forall_eq', Limitable]
      by_cases hwho : action = "admin.whoami"
      · subst hwho
        simp [show classOf "admin.whoami" = some .admin by decide]
      · rcases classOf action with - | c
        · simp
        · cases c <;> simp [hwho, limitRefusal_eq_none_iff]

/-! ### What is within a role's reach -/

/-- The home a request carries: none, or the path of a string. A value of another type is no home
at all, and nothing is decided with it. -/
def CarriesHome (req : Request) (home : Option OsPath) : Prop :=
  (req.subject[subjectHome]? = none ∧ home = none) ∨
    ∃ h, req.subject[subjectHome]? = some (.str h) ∧ home = some (.ofString h)

/-- The permission set of a subject that has its own. -/
def permissionSet (entry : Option SubjectEntry) : Option SubjectPermissions :=
  entry.bind SubjectEntry.permissions

/-- A prepared local filesystem attempt on a canonical path that the policy allows. -/
structure FsAllowed (lp : LoadedPolicy) (req : Request) (entry : Option SubjectEntry) : Prop where
  /-- The attempt is one of the implemented terms. -/
  action_mem : req.action ∈ fsActions
  /-- The subject is local. -/
  local_lane : Attributes.str req.context contextDacLane = some "local"
  /-- No OS preapproval is carried. -/
  no_preapproval : req.resource[resourceOsAccessible]? = none
  /-- The prepared operation belongs to the action, and at its scope the policy allows the
  canonical path for the home the request carries. -/
  allowed : ∃ operation scope path home source,
    Attributes.str req.context contextFsOperation = some (FsOperation.asStr operation) ∧
    operationScope req.action operation = some scope ∧
    req.resource[resourcePath]? = some (.str path) ∧ IsCanonical path ∧
    CarriesHome req home ∧
    evaluateScope lp.policy (permissionSet entry) scope (.ofString path) home =
      .ok (.allowMatch source)

/-- An egress prompt the role's grants, its destinations and the subject's models allow. -/
structure PromptAllowed (lp : LoadedPolicy) (req : Request) (entry : Option SubjectEntry)
    (role : Role) : Prop where
  action_eq : req.action = "session.prompt"
  granted : Granted lp.actionGrants role.key "session.prompt"
  /-- The destination is a string of the role's allowlist. -/
  destination : ∃ destination listed, req.resource[resourceDestination]? = some (.str destination) ∧
    lp.destinations[role.key]? = some listed ∧ destination ∈ listed
  /-- A subject that lists models names the requested one. -/
  model : ∀ e ∈ entry, ∀ listed ∈ e.models, ∃ model,
    req.resource[resourceModel]? = some (.str model) ∧ model ∈ listed.map ModelRef.asResource

/-- The ways an action is within a role's reach. -/
inductive Reach (lp : LoadedPolicy) (req : Request) (entry : Option SubjectEntry) (role : Role) :
    Prop
  | liveness (h : InSegment "liveness" req.action)
  | whoami (hrole : role = .admin) (h : req.action = "admin.whoami")
  | adminTerm (hrole : role = .admin) (hgrantable : req.action ∈ grantableActions)
      (hclass : InSegment "admin" req.action) (h : Granted lp.actionGrants "admin" req.action)
  | prompt (hrole : role = .admin ∨ role = .user) (h : PromptAllowed lp req entry role)
  | fs (hrole : role = .admin ∨ role = .user) (h : FsAllowed lp req entry)

/-! ### Each arm permits its part of the reach -/

variable {lp : LoadedPolicy} {req : Request} {entry : Option SubjectEntry} {role : Role}

theorem FsOperation.parse_eq_some_iff {s op} :
    FsOperation.parse s = some op ↔ s = op.asStr := by
  constructor
  · intro h
    unfold FsOperation.parse at h
    split_ifs at h <;> obtain rfl := some.inj h <;> assumption
  · rintro rfl
    exact FsOperation.parse_asStr op

theorem FsOperation.asStr_injective : Function.Injective FsOperation.asStr := fun a b h ↦ by
  simpa using congrArg FsOperation.parse h

theorem attemptScope_eq_ok_iff :
    attemptScope req = .ok scope ↔
      Attributes.str req.context contextDacLane = some "local" ∧
      (∃ operation, Attributes.str req.context contextFsOperation =
          some (FsOperation.asStr operation) ∧ operationScope req.action operation = some scope) ∧
      req.resource[resourceOsAccessible]? = none := by
  unfold attemptScope
  by_cases hlane : Attributes.str req.context contextDacLane = some "local"
  · simp only [hlane]
    cases hop : Attributes.str req.context contextFsOperation with
    | none => simp
    | some s =>
      simp only [bind_some, some.injEq]
      cases hparse : FsOperation.parse s with
      | none =>
        have hno : ∀ op : FsOperation, s ≠ op.asStr := fun op hs ↦ by
          simp [FsOperation.parse_eq_some_iff.mpr hs] at hparse
        simp [hno]
      | some operation =>
        obtain rfl := FsOperation.parse_eq_some_iff.mp hparse
        simp only [FsOperation.asStr_injective.eq_iff, exists_eq_left']
        cases operationScope req.action operation with
        | none => simp
        | some scope' =>
          cases req.resource[resourceOsAccessible]? <;> simp
  · simp [hlane]

theorem fsVerdict_isPermit_iff {subject matched} :
    (fsVerdict lp req roleKey subject matched).1.IsPermit ↔ ∃ s, matched = .allowMatch s := by
  cases matched with
  | allowMatch source => cases subject <;> simp [fsVerdict]
  | denyMatch source =>
    cases subject with
    | none => simp [fsVerdict]
    | some name =>
      simp only [fsVerdict]
      split_ifs <;> simp
  | noMatch => simp [fsVerdict]

theorem map_snd_permissions (entry : Option SubjectEntry) :
    (entry.bind fun e ↦ e.permissions.map fun p ↦ (e.name, p)).map Prod.snd =
      permissionSet entry := by
  cases entry with
  | none => rfl
  | some e => cases h : e.permissions <;> simp [permissionSet]

theorem carriedHome_eq_some_iff :
    carriedHome req = some home ↔ CarriesHome req home := by
  unfold carriedHome CarriesHome
  rcases req.subject[subjectHome]? with - | (h | i | b | s)
  · simp [eq_comm]
  · simp [eq_comm]
  · simp
  · simp
  · simp

theorem decideFsAt_isPermit_iff {roleKey path} :
    (decideFsAt lp req roleKey scope entry path home).1.IsPermit ↔
      ∃ source, evaluateScope lp.policy (permissionSet entry) scope (.ofString path) home =
        .ok (.allowMatch source) := by
  rw [decideFsAt, map_snd_permissions]
  cases evaluateScope lp.policy (permissionSet entry) scope (.ofString path) home with
  | error e => simp
  | ok matched => simp [fsVerdict_isPermit_iff]

/-- The filesystem arm permits exactly the canonical paths the policy allows at the scope, for the
home the request carries. -/
theorem decideFs_isPermit_iff :
    (decideFs lp req roleKey scope entry).1.IsPermit ↔
      ∃ path home source, req.resource[resourcePath]? = some (.str path) ∧ IsCanonical path ∧
        CarriesHome req home ∧
        evaluateScope lp.policy (permissionSet entry) scope (.ofString path) home =
          .ok (.allowMatch source) := by
  simp only [← carriedHome_eq_some_iff, ← canonicalViolation_eq_none_iff]
  unfold decideFs
  rcases req.resource[resourcePath]? with - | (path | i | b | s)
  · simp
  · cases hcanon : canonicalViolation path with
    | some offense => simp [hcanon]
    | none =>
      cases hhome : carriedHome req with
      | none => simp [hcanon]
      | some home => simp [hcanon, decideFsAt_isPermit_iff]
  · simp
  · simp
  · simp

theorem allowsDestination_iff {destinations roleKey destination} :
    allowsDestination destinations roleKey destination = true ↔
      ∃ listed, destinations[roleKey]? = some listed ∧ destination ∈ listed := by
  unfold allowsDestination
  cases destinations[roleKey]? <;> simp

theorem modelRefusal_eq_none_iff :
    modelRefusal req entry = none ↔
      ∀ e ∈ entry, ∀ listed ∈ e.models, ∃ model,
        req.resource[resourceModel]? = some (.str model) ∧
          model ∈ listed.map ModelRef.asResource := by
  unfold modelRefusal
  cases entry with
  | none => simp
  | some e =>
    cases hmodels : e.models with
    | none => simp [hmodels]
    | some listed =>
      simp only [hmodels, bind_some, mem_def, some.injEq, forall_eq']
      rcases req.resource[resourceModel]? with - | (model | i | b | s)
      · simp
      · simp
      · simp
      · simp
      · simp

theorem not_isPermit_of_modelRefusal (h : modelRefusal req entry = some verdict) :
    ¬verdict.IsPermit := by
  unfold modelRefusal at h
  split at h
  · simp at h
  · split at h
    · split_ifs at h
      cases h
      exact id
    · cases h
      exact id

/-- The prompt arm permits exactly what the grants, destinations and models allow. -/
theorem decidePrompt_isPermit_iff (haction : req.action = "session.prompt") :
    (decidePrompt lp req role.key entry).1.IsPermit ↔ PromptAllowed lp req entry role := by
  have hsplit : PromptAllowed lp req entry role ↔
      (∃ source, evaluate3Action lp.actionGrants role.key "session.prompt" = .allowMatch source) ∧
      (∃ destination, req.resource[resourceDestination]? = some (.str destination) ∧
        allowsDestination lp.destinations role.key destination = true) ∧
      modelRefusal req entry = none := by
    simp only [evaluate3Action_allow_iff, allowsDestination_iff, modelRefusal_eq_none_iff]
    constructor
    · rintro ⟨-, hgranted, ⟨destination, listed, hd, hl, hmem⟩, hmodel⟩
      exact ⟨hgranted, ⟨destination, hd, listed, hl, hmem⟩, hmodel⟩
    · rintro ⟨hgranted, ⟨destination, hd, listed, hl, hmem⟩, hmodel⟩
      exact ⟨haction, hgranted, ⟨destination, listed, hd, hl, hmem⟩, hmodel⟩
  rw [hsplit, decidePrompt]
  cases evaluate3Action lp.actionGrants role.key "session.prompt" with
  | denyMatch source | noMatch => simp
  | allowMatch source =>
    rcases req.resource[resourceDestination]? with - | (destination | i | b | s)
    · simp
    · cases hallows : allowsDestination lp.destinations role.key destination with
      | false => simp [hallows]
      | true =>
        cases hmodel : modelRefusal req entry with
        | none => simp [hallows]
        | some verdict => simp [hallows, not_isPermit_of_modelRefusal hmodel]
    · simp
    · simp
    · simp

/-- The admin arm permits liveness, `admin.whoami` and the granted admin terms. -/
theorem decideAdmin_isPermit_iff :
    (decideAdmin lp action).1.IsPermit ↔
      InSegment "liveness" action ∨ action = "admin.whoami" ∨
        (action ∈ grantableActions ∧ InSegment "admin" action ∧
          Granted lp.actionGrants "admin" action) := by
  rw [← classOf_eq_liveness_iff, ← classOf_eq_admin_iff, ← evaluate3Action_allow_iff, decideAdmin]
  have hwhoami : classOf "admin.whoami" = some .admin := by decide
  rcases hclass : classOf action with - | c
  · have hne : action ≠ "admin.whoami" := fun h ↦ by simp [h, hwhoami] at hclass
    simp [hne]
  · by_cases hwho : action = "admin.whoami"
    · obtain rfl : ActionClass.admin = c := by simpa [hwho, hwhoami] using hclass
      simp [hwho]
    · cases c with
      | admin =>
        by_cases hgrantable : action ∈ grantableActions
        · cases evaluate3Action lp.actionGrants "admin" action <;> simp [hwho, hgrantable]
        · simp [hwho, hgrantable]
      | liveness => simp
      | session | fs | terminal | mcp | kernel => simp [hwho]

theorem decideLiveness_isPermit_iff {roleKey action} :
    (decideLiveness roleKey action).1.IsPermit ↔ InSegment "liveness" action := by
  rw [← classOf_eq_liveness_iff, decideLiveness]
  split_ifs with h <;> simp [h]

/-! ### The whole ladder -/

/-- The actions of the filesystem arm and of the prompt arm belong to no other arm. -/
theorem arm_disjoint (h : action ∈ fsActions ∨ action = "session.prompt") :
    ¬InSegment "liveness" action ∧ action ≠ "admin.whoami" ∧ ¬InSegment "admin" action := by
  rw [← classOf_eq_liveness_iff, ← classOf_eq_admin_iff]
  simp only [fsActions, List.mem_cons, List.not_mem_nil, or_false] at h
  rcases h with (rfl | rfl | rfl | rfl) | rfl <;> decide

/-- On the actions of the filesystem arm, the reach of admin and user is the policy's. -/
theorem reach_iff_of_fs (hrole : role = .admin ∨ role = .user) (h : req.action ∈ fsActions) :
    Reach lp req entry role ↔ FsAllowed lp req entry := by
  obtain ⟨hlive, hwho, hadmin⟩ := arm_disjoint (.inl h)
  constructor
  · rintro (hl | ⟨-, hw⟩ | ⟨-, -, ha, -⟩ | ⟨-, hp⟩ | ⟨-, hfs⟩)
    · exact absurd hl hlive
    · exact absurd hw hwho
    · exact absurd ha hadmin
    · exact absurd h (by rw [hp.action_eq]; decide)
    · exact hfs
  · exact .fs hrole

/-- On `session.prompt` the reach of admin and user is what the prompt arm allows. -/
theorem reach_iff_of_prompt (hrole : role = .admin ∨ role = .user)
    (h : req.action = "session.prompt") :
    Reach lp req entry role ↔ PromptAllowed lp req entry role := by
  obtain ⟨hlive, hwho, hadmin⟩ := arm_disjoint (.inr h)
  constructor
  · rintro (hl | ⟨-, hw⟩ | ⟨-, -, ha, -⟩ | ⟨-, hp⟩ | ⟨-, hfs⟩)
    · exact absurd hl hlive
    · exact absurd hw hwho
    · exact absurd ha hadmin
    · exact hp
    · exact absurd hfs.action_mem (by rw [h]; decide)
  · exact .prompt hrole

theorem not_isPermit_of_attemptScope (h : attemptScope req = .error verdict) :
    ¬verdict.IsPermit := by
  unfold attemptScope at h
  split at h
  · cases h
    exact id
  · split at h
    · cases h
      exact id
    · split at h
      · cases h
        exact id
      · split at h
        · cases h
          exact id
        · cases h

/-- The filesystem arm behind the preparation check permits exactly the allowed attempts. -/
theorem decideAttempt_isPermit_iff (h : req.action ∈ fsActions) :
    (decideAttempt lp req roleKey entry).1.IsPermit ↔ FsAllowed lp req entry := by
  unfold decideAttempt
  constructor
  · intro hp
    cases hscope : attemptScope req with
    | error verdict =>
      rw [hscope] at hp
      exact absurd hp (not_isPermit_of_attemptScope hscope)
    | ok scope =>
      rw [hscope] at hp
      obtain ⟨hlane, ⟨operation, hop, hbelongs⟩, hpre⟩ := attemptScope_eq_ok_iff.mp hscope
      obtain ⟨path, home, source, hpath, hcanon, hhome, hallow⟩ := decideFs_isPermit_iff.mp hp
      exact ⟨h, hlane, hpre, operation, scope, path, home, source, hop, hbelongs, hpath, hcanon,
        hhome, hallow⟩
  · rintro ⟨-, hlane, hpre, operation, scope, path, home, source, hop, hbelongs, hrest⟩
    rw [attemptScope_eq_ok_iff.mpr ⟨hlane, ⟨operation, hop, hbelongs⟩, hpre⟩]
    exact decideFs_isPermit_iff.mpr ⟨path, home, source, hrest⟩

/-- The arms of a role that is not contained permit exactly its reach. -/
theorem decideReach_isPermit_iff (hrole : role ≠ .adversary) :
    (decideReach lp req entry role).1.IsPermit ↔ Reach lp req entry role := by
  unfold decideReach
  split_ifs with hfs hprompt hadmin
  · rw [decideAttempt_isPermit_iff hfs.2, reach_iff_of_fs hfs.1 hfs.2]
  · rw [decidePrompt_isPermit_iff hprompt.2, reach_iff_of_prompt hprompt.1 hprompt.2]
  · subst hadmin
    rw [decideAdmin_isPermit_iff]
    constructor
    · rintro (hl | hw | ⟨hg, ha, hgranted⟩)
      · exact .liveness hl
      · exact .whoami rfl hw
      · exact .adminTerm rfl hg ha hgranted
    · rintro (hl | ⟨-, hw⟩ | ⟨-, hg, ha, hgranted⟩ | ⟨-, hp⟩ | ⟨-, hf⟩)
      · exact .inl hl
      · exact .inr (.inl hw)
      · exact .inr (.inr ⟨hg, ha, hgranted⟩)
      · exact absurd ⟨.inl rfl, hp.action_eq⟩ hprompt
      · exact absurd ⟨.inl rfl, hf.action_mem⟩ hfs
  · rw [decideLiveness_isPermit_iff]
    constructor
    · exact .liveness
    · rintro (hl | ⟨hr, -⟩ | ⟨hr, -, -, -⟩ | ⟨hr, hp⟩ | ⟨hr, hf⟩)
      · exact hl
      · exact absurd hr hadmin
      · exact absurd hr hadmin
      · exact absurd ⟨hr, hp.action_eq⟩ hprompt
      · exact absurd ⟨hr, hf.action_mem⟩ hfs

/-- A refusal by the subject's own limit is never a permit. -/
theorem not_isPermit_of_actionLimit (h : actionLimit entry action = some verdict) :
    ¬verdict.IsPermit := by
  have hrefusal : ∀ name set, limitRefusal name set action = some verdict → ¬verdict.IsPermit := by
    intro name set hv
    unfold limitRefusal at hv
    split at hv
    · cases hv
      exact id
    · split_ifs at hv
      cases hv
      exact id
  unfold actionLimit at h
  split at h
  · simp at h
  · split at h
    · simp at h
    · simp at h
    · simp at h
    · split_ifs at h
      exact hrefusal _ _ h
    all_goals exact hrefusal _ _ h

/-- The arms of a resolved role permit exactly the reach of a role that is not contained, within the
subject's limit. -/
theorem decideRole_isPermit_iff :
    (decideRole lp req uid role).1.IsPermit ↔
      role ≠ .adversary ∧ WithinLimit lp.subjects[uid]? req.action ∧
        Reach lp req lp.subjects[uid]? role := by
  unfold decideRole
  split_ifs with hrole
  · simp [hrole]
  · rw [← actionLimit_eq_none_iff]
    cases hlimit : actionLimit lp.subjects[uid]? req.action with
    | some verdict => simp [hlimit, not_isPermit_of_actionLimit hlimit]
    | none => simp [hlimit, hrole, decideReach_isPermit_iff hrole]

/-- Nothing within a role's reach is a kernel action. -/
theorem Reach.classOf_ne_kernel (h : Reach lp req entry role) :
    classOf req.action ≠ some .kernel := by
  rcases h with hl | ⟨-, hw⟩ | ⟨-, -, ha, -⟩ | ⟨-, hp⟩ | ⟨-, hf⟩
  · simp [classOf_eq_liveness_iff.mpr hl]
  · rw [hw]; decide
  · simp [classOf_eq_admin_iff.mpr ha]
  · rw [hp.action_eq]; decide
  · have hmem := hf.action_mem
    simp only [fsActions, List.mem_cons, List.not_mem_nil, or_false] at hmem
    rcases hmem with h | h | h | h <;> rw [h] <;> decide

/-- The request is the kernel containing a subject on its own behalf. -/
def KernelContains (req : Request) : Prop :=
  req.action = "kernel.contain" ∧
    req.subject[subjectInitiator]? = some (.str initiatorKernel)

theorem kernelDecided_isPermit_iff : (kernelDecided req).IsPermit ↔ KernelContains req := by
  unfold kernelDecided KernelContains
  rw [← Attributes.str_eq_some_iff]
  by_cases hk : Attributes.str req.subject subjectInitiator = some initiatorKernel
  · by_cases ha : req.action = "kernel.contain" <;> simp [hk, ha]
  · simp [hk]

theorem u32TryFrom_eq_some_iff {i} :
    u32TryFrom i = some uid ↔ i = (uid.toNat : ℤ) := by
  rcases i with n | n
  · show (if n < UInt32.size then some (UInt32.ofNat n) else none) = some uid ↔
      (n : ℤ) = (uid.toNat : ℤ)
    rw [Int.ofNat_inj]
    split_ifs with h
    · rw [some_inj, ← UInt32.toNat_inj, UInt32.toNat_ofNat_of_lt' h]
    · have := uid.toNat_lt_size
      exact ⟨nofun, fun hn ↦ absurd (hn ▸ this) h⟩
  · exact ⟨nofun, nofun⟩

theorem mem_roles_iff : role ∈ [Role.admin, .user, .guest] ↔ role ≠ .adversary := by
  cases role <;> decide

/-- The decision once the subject's uid is known. -/
theorem decideUid_isPermit_iff :
    (decideUid lp principal req uid).verdict.IsPermit ↔
      KernelContains req ∨
        ∃ role ∈ [Role.admin, .user, .guest],
          lp.roles.roleFor uid principal.uid = .role role ∧
          WithinLimit lp.subjects[uid]? req.action ∧ Reach lp req lp.subjects[uid]? role := by
  unfold decideUid
  split_ifs with hkernel
  · rw [kernelDecided_isPermit_iff]
    refine ⟨.inl, ?_⟩
    rintro (h | ⟨role, -, -, -, hreach⟩)
    · exact h
    · exact absurd hkernel hreach.classOf_ne_kernel
  · have hno : ¬KernelContains req := fun h ↦ hkernel (by rw [h.1]; decide)
    simp only [hno, mem_roles_iff]
    cases lp.roles.roleFor uid principal.uid with
    | noRole => simp
    | role role => simp [decideRole_isPermit_iff]

/-- A permit is decided on a uid in range. -/
theorem isPermit_iff_exists_uid :
    (decideLoadedCited lp principal req).verdict.IsPermit ↔
      ∃ uid : UInt32, req.subject[subjectUid]? = some (.int uid.toNat) ∧
        (decideUid lp principal req uid).verdict.IsPermit := by
  unfold decideLoadedCited
  rcases req.subject[subjectUid]? with - | (s | i | b | s)
  · simp
  · simp
  · cases hu : u32TryFrom i with
    | some uid =>
      obtain rfl := u32TryFrom_eq_some_iff.mp hu
      have hsame : ∀ v : UInt32, (uid.toNat : ℤ) = v.toNat ↔ uid = v := fun _ ↦
        Int.ofNat_inj.trans UInt32.toNat_inj
      simp only [hu, some.injEq, AttrValue.int.injEq, hsame, exists_eq_left']
    | none =>
      have hno : ∀ uid : UInt32, i ≠ uid.toNat := fun uid h ↦ by
        simp [u32TryFrom_eq_some_iff.mpr h] at hu
      simp [hu, hno]
  · simp
  · simp

/-- The permits of the filesystem actions: a role that reaches them, within the subject's limit, and
an attempt the policy allows. -/
theorem isPermit_iff_of_fs (h : req.action ∈ fsActions) :
    (decideLoadedCited lp principal req).verdict.IsPermit ↔
      ∃ uid : UInt32, req.subject[subjectUid]? = some (.int uid.toNat) ∧
        ∃ role ∈ [Role.admin, .user], lp.roles.roleFor uid principal.uid = .role role ∧
          WithinLimit lp.subjects[uid]? req.action ∧ FsAllowed lp req lp.subjects[uid]? := by
  have hclass : classOf req.action ≠ some .kernel := by
    simp only [fsActions, List.mem_cons, List.not_mem_nil, or_false] at h
    rcases h with h | h | h | h <;> rw [h] <;> decide
  have hkernel : ¬KernelContains req := fun hk ↦ hclass (by rw [hk.1]; decide)
  obtain ⟨hlive, -, -⟩ := arm_disjoint (.inl h)
  rw [isPermit_iff_exists_uid]
  simp only [decideUid_isPermit_iff, hkernel, false_or]
  refine exists_congr fun uid ↦ and_congr_right fun _ ↦ ⟨?_, ?_⟩
  · rintro ⟨role, -, hrole, hlimit, hreach⟩
    have hmem : role = .admin ∨ role = .user := by
      rcases hreach with hl | ⟨hr, -⟩ | ⟨hr, -, -, -⟩ | ⟨hr, -⟩ | ⟨hr, -⟩
      · exact absurd hl hlive
      · exact .inl hr
      · exact .inl hr
      · exact hr
      · exact hr
    exact ⟨role, by simpa using hmem, hrole, hlimit, (reach_iff_of_fs hmem h).mp hreach⟩
  · rintro ⟨role, hmem, hrole, hlimit, hallowed⟩
    have hmem : role = .admin ∨ role = .user := by simpa using hmem
    refine ⟨role, ?_, hrole, hlimit, .fs hmem hallowed⟩
    rcases hmem with rfl | rfl <;> decide

/-- **Exactly when a request is permitted.** The uid is an integer of the 32-bit range, and either
the kernel contains a subject on its own behalf, or the uid resolves to a role that is not
containment, the subject's own limit does not refuse the action, and the action is within the role's
reach. -/
theorem decideLoadedCited_isPermit_iff (lp : LoadedPolicy) (principal : Principal) (req : Request) :
    (decideLoadedCited lp principal req).verdict.IsPermit ↔
      ∃ uid : UInt32, req.subject[subjectUid]? = some (.int uid.toNat) ∧
        (KernelContains req ∨
          ∃ role ∈ [Role.admin, .user, .guest],
            lp.roles.roleFor uid principal.uid = .role role ∧
            WithinLimit lp.subjects[uid]? req.action ∧ Reach lp req lp.subjects[uid]? role) := by
  rw [isPermit_iff_exists_uid]
  simp only [decideUid_isPermit_iff]

end Maknae.Authz
