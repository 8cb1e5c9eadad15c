import Maknae.Authz.Grants
import Maknae.StateGraph.Layers

/-!
# One load of the two policy files

A load asks the host once for every name the two files bind or restrict, resolves the bindings and
validates the grants. `PolicyInput` is what the snapshot compiler takes: a value of it **is** a load
that succeeded, so its fields say what was checked.

A lookup that fails, as opposed to one that finds nobody, refuses the whole load. Two loads against
one host therefore agree on every name they both ask for (`getElem?_resolveUidMap`).
-/

namespace Maknae.Authz

open Config Except StateGraph Std.ExtTreeMap

/-! ### Asking the host -/

/-- What one account lookup said. -/
inductive Lookup
  | found (uid : UInt32)
  | absent
  | failed (errno : ℤ)

/-- The names the bindings list, in file order. -/
def boundNames (bindings : Bindings) : List String :=
  (bindings.roles.toList.flatMap fun map ↦ map.toList.flatMap Prod.snd).filterMap fun
    | .name n => some n
    | .uid _ => none

/-- The refusal of a load whose lookup of a name failed. -/
def lookupFailed (bound : List String) (name : String) (errno : ℤ) : AuthzBasicError :=
  let m := s!"looking up '{name}' failed (errno {errno}); nothing was changed"
  if bound.contains name then .bindings m else .subjectLookup m

/-- Ask for one name, unless it was asked for already. -/
def askName (host : String → Lookup) (bound : List String) (map : Lookups) (name : String) :
    Except AuthzBasicError Lookups :=
  if name ∈ map then .ok map
  else
    match host name with
    | .found uid => .ok (map.insert name (some uid))
    | .absent => .ok (map.insert name none)
    | .failed errno => .error (lookupFailed bound name errno)

/-- The answers of the host for every name the two files bind or restrict. -/
def resolveUidMap (policy : PolicyFile) (bindings : Bindings) (host : String → Lookup) :
    Except AuthzBasicError Lookups :=
  (boundNames bindings ++ policy.subjects.keys).foldlM (askName host (boundNames bindings)) ∅

/-- The answer a lookup that did not fail gives. -/
def Lookup.answer : Lookup → Option (Option UInt32)
  | found uid => some (some uid)
  | absent => some none
  | failed _ => none

variable {host : String → Lookup} {map out : Lookups}

theorem getElem?_askName {bound name}
    (hmap : ∀ m a, map[m]? = some a → (host m).answer = some a)
    (h : askName host bound map name = .ok out) (n : String) :
    out[n]? = if n = name then (host n).answer else map[n]? := by
  unfold askName at h
  split_ifs at h with hasked
  · cases h
    split_ifs with heq
    · subst heq
      obtain ⟨a, ha⟩ : ∃ a, map[n]? = some a :=
        Option.isSome_iff_exists.mp (mem_iff_isSome_getElem?.mp hasked)
      rw [ha, hmap n a ha]
    · rfl
  · cases hhost : host name with
    | failed errno =>
      rw [hhost] at h
      cases h
    | found uid | absent =>
      rw [hhost] at h
      cases h
      rw [getElem?_insert_ite]
      split_ifs with heq
      · rw [heq, hhost]
        rfl
      · rfl

theorem getElem?_foldlM_askName {bound names : List String}
    (hmap : ∀ m a, map[m]? = some a → (host m).answer = some a)
    (h : names.foldlM (askName host bound) map = .ok out) (n : String) :
    out[n]? = if n ∈ names then (host n).answer else map[n]? := by
  induction names generalizing map with
  | nil =>
    obtain rfl := pure_eq_ok.mp h
    simp
  | cons name names ih =>
    obtain ⟨map', hmap', h⟩ := bind_eq_ok.mp h
    have hstep := getElem?_askName hmap hmap'
    have hkeep : ∀ m a, map'[m]? = some a → (host m).answer = some a := by
      intro m a hm
      rw [hstep] at hm
      split_ifs at hm
      · exact hm
      · exact hmap m a hm
    rw [ih hkeep h, hstep]
    by_cases hn : n ∈ names
    · simp [hn]
    · by_cases heq : n = name <;> simp [hn]

/-- **The answers of a load** are the host's, for the names it asked for. -/
theorem getElem?_resolveUidMap {policy : PolicyFile} {bindings : Bindings} {out : Lookups}
    (h : resolveUidMap policy bindings host = .ok out) (n : String) :
    out[n]? = if n ∈ boundNames bindings ++ policy.subjects.keys then (host n).answer
      else none := by
  rw [getElem?_foldlM_askName (fun m a hm ↦ ?_) h, getElem?_empty]
  cases hm

/-! ### The load -/

/-- A load of the two policy files that passed every check. -/
structure PolicyInput extends PolicySource where
  policy : PolicyFile
  /-- The restrictions of single subjects, by the uid each name resolves to. -/
  subjects : Std.ExtTreeMap UInt32 SubjectEntry compare
  /-- The path of the policy file. -/
  policySource : String
  /-- The canonical text of the bindings section. -/
  bindingsSection : Option String
  section_isSome : bindingsSection.isSome = bindings.roles.isSome
  grants_ok : ∃ grants, validateGrants policy.actionGrants = .ok grants
  destinations_ok : ∃ grants, validateDestinations policy.destinations = .ok grants
  subjects_eq : validateSubjects policy lookups = .ok subjects

/-- The text of a refused bindings section. -/
def roleRuleMessage : RoleRuleError → String
  | .unknownRole k => s!"bindings names unknown role '{k}'"
  | .duplicate n => s!"identity '{n}' listed twice in one role"
  | .uidOutsideAdversary k =>
    s!"role '{k}' lists a uid entry; `uid:` entries are accepted under adversary only"

/-- The parsed bindings file, with the canonical text of its section. -/
structure BindingsFile extends Bindings where
  text : Option String
  text_isSome : text.isSome = roles.isSome

namespace PolicyInput

/-- Validate the two files against the answers of the host. -/
def fromLookups (policy : PolicyFile) (bindings : BindingsFile) (lookups : Lookups)
    (policySource identitySource : String) : Except AuthzBasicError PolicyInput :=
  match hresolved : resolveSubjects bindings.toBindings (found lookups) with
  | .error e => .error (.bindings (roleRuleMessage e))
  | .ok resolved =>
    match hgrants : validateGrants policy.actionGrants with
    | .error e => .error e
    | .ok grants =>
      match hdestinations : validateDestinations policy.destinations with
      | .error e => .error e
      | .ok destinations =>
        match hsubjects : validateSubjects policy lookups with
        | .error e => .error e
        | .ok subjects => .ok {
            bindings := bindings.toBindings
            lookups, resolved, identitySource
            resolved_eq := hresolved
            policy, subjects, policySource
            bindingsSection := bindings.text
            section_isSome := bindings.text_isSome
            grants_ok := ⟨grants, hgrants⟩
            destinations_ok := ⟨destinations, hdestinations⟩
            subjects_eq := hsubjects }

/-- Load the two files: one lookup per name, then the validation. -/
def load (policy : PolicyFile) (bindings : BindingsFile) (host : String → Lookup)
    (policySource identitySource : String) : Except AuthzBasicError PolicyInput := do
  let lookups ← resolveUidMap policy bindings.toBindings host
  fromLookups policy bindings lookups policySource identitySource

/-- The digest of every section of the two files, by key. -/
def sectionDigests (input : PolicyInput) (digest : String → Digest) :
    Std.ExtTreeMap String Digest compare :=
  let out := input.policy.sections.map fun _ text ↦ digest text
  match input.bindingsSection with
  | some text => out.insert "bindings" (digest text)
  | none => out

/-- What a load is of. -/
structure Loaded (policy : PolicyFile) (bindings : BindingsFile) (lookups : Lookups)
    (policySource identitySource : String) (input : PolicyInput) : Prop where
  policy_eq : input.policy = policy
  bindings_eq : input.bindings = bindings.toBindings
  section_eq : input.bindingsSection = bindings.text
  lookups_eq : input.lookups = lookups
  policySource_eq : input.policySource = policySource
  identitySource_eq : input.identitySource = identitySource

theorem loaded_of_fromLookups {policy bindings lookups policySource identitySource input}
    (h : fromLookups policy bindings lookups policySource identitySource = .ok input) :
    Loaded policy bindings lookups policySource identitySource input := by
  unfold fromLookups at h
  split at h
  · cases h
  split at h
  · cases h
  split at h
  · cases h
  split at h
  · cases h
  cases h
  exact ⟨rfl, rfl, rfl, rfl, rfl, rfl⟩

/-- The digest of the bindings section, when the file has one. -/
theorem getElem?_sectionDigests_bindings (input : PolicyInput) (digest : String → Digest) :
    (input.sectionDigests digest)["bindings"]? = input.bindingsSection.map digest := by
  unfold sectionDigests
  cases input.bindingsSection with
  | some text => exact getElem?_insert_self
  | none =>
    rw [getElem?_map, getElem?_eq_none input.policy.bindings_moved, Option.map_none]

end PolicyInput

end Maknae.Authz
