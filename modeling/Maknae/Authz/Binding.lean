import Maknae.Authz.Role
import Maknae.Config.Bindings
import Maknae.StateGraph.Identity
import Mathlib.Data.List.Destutter

/-!
# Resolving the bindings of one load

A load asks the host for the uid of every bound name once and resolves each subject on its own: a
uid listed under `adversary` is contained whatever else it is listed under, a uid under one other
role is bound to it, and a uid under two others holds none. A name with no account is reported and
binds nobody.

`PolicySource` is one load together with its resolution. `declared_identityLayer` says that the
layer it declares is one `carryForward` can be trusted with.
-/

namespace Maknae.Authz

open List hiding Vector
open Config Except Option StateGraph Std.ExtTreeMap

/-! ### The subjects of the bindings -/

/-- Names with the uid the host gave for them. -/
abbrev UidMap := Std.ExtTreeMap String UInt32 compare

/-- The roles in the order of `bindingRoles`. -/
def roleOrder : List Role := [.admin, .user, .guest, .adversary]

/-- The role at a position. Positions come from `checkedRoles` and are in range. -/
def roleAt (idx : ℕ) : Role := roleOrder[idx]?.getD .adversary

/-- A subject that could not be bound as written. -/
inductive IdentityProblem
  | unresolved (role name : String)
  | unresolvedAdversary (name : String)
  | contained (uid : UInt32) (names roles : List String)
  | unbound (uid : UInt32) (names roles : List String)
  | carriedForward (uid : UInt32) (name : String) (overrides : List (String × String))

/-- The subjects one load binds, in uid order, and the problems it reported. -/
structure Resolved where
  subjects : List (UInt32 × Role × String)
  problems : List IdentityProblem
  /-- Every `adversary:` name that resolved, with its uid. -/
  adversaryNames : UidMap

/-- The uid an entry stands for. -/
def entryUid (lookup : UidMap) : BindingEntry → Option UInt32
  | .uid u => some u
  | .name n => lookup[n]?

/-- The problem of an entry that did not resolve. -/
def unresolvedProblem (entry : ℕ × BindingEntry) : IdentityProblem :=
  match roleAt entry.1 with
  | .adversary => .unresolvedAdversary entry.2.render
  | role => .unresolved role.key entry.2.render

/-- Record the names among the entries of a uid that contain it. -/
def recordName (uid : UInt32) (names : UidMap) : ℕ × BindingEntry → UidMap
  | (idx, .name n) => if roleAt idx = .adversary then names.insert n uid else names
  | (_, .uid _) => names

/-- The first entry of a uid that contains it. -/
def firstAdversary (entries : List (ℕ × BindingEntry)) : Option (ℕ × BindingEntry) :=
  entries.find? fun e ↦ roleAt e.1 == .adversary

/-- The subject the entries of a uid bind, if they bind one. -/
def boundSubject (uid : UInt32) (entries : List (ℕ × BindingEntry)) :
    Option (UInt32 × Role × String) :=
  match effective (entries.map Prod.fst), firstAdversary entries with
  | some .contained, some first => some (uid, .adversary, first.2.render)
  | some (.bound _), _ => entries.head?.map fun e ↦ (uid, roleAt e.1, e.2.render)
  | _, _ => none

/-- The problem with the entries of a uid, if there is one. -/
def subjectProblem (uid : UInt32) (entries : List (ℕ × BindingEntry)) : Option IdentityProblem :=
  let roles := ((entries.map fun e ↦ (roleAt e.1).key).insertionSort (· ≤ ·)).destutter (· ≠ ·)
  let names := (entries.map fun e ↦ e.2.render).eraseDups
  match effective (entries.map Prod.fst), firstAdversary entries with
  | some .contained, some _ => if roles.length > 1 then some (.contained uid names roles) else none
  | some (.bound _), _ => none
  | _, _ => some (.unbound uid names roles)

/-- Resolve the entries of one uid. -/
def resolveUid (out : Resolved) (held : UInt32 × List (ℕ × BindingEntry)) : Resolved where
  subjects := out.subjects ++ (boundSubject held.1 held.2).toList
  problems := out.problems ++ (subjectProblem held.1 held.2).toList
  adversaryNames := held.2.foldl (recordName held.1) out.adversaryNames

/-- Resolve the bindings, one subject at a time. -/
def resolveSubjects (bindings : Bindings) (lookup : UidMap) : Except RoleRuleError Resolved := do
  let roles ← checkedRoles bindings.roles
  let (byUid, unresolved) := subjectsByUid roles (entryUid lookup)
  return byUid.toList.foldl resolveUid ⟨[], unresolved.map unresolvedProblem, ∅⟩

/-! ### One load -/

/-- Names with the host's answer, found or absent. -/
abbrev Lookups := Std.ExtTreeMap String (Option UInt32) compare

/-- The answers that found an account. -/
def found (lookups : Lookups) : UidMap := lookups.filterMap fun _ answer ↦ answer

/-- A load: the bindings, the answers of the host, and what they resolve to. -/
structure PolicySource where
  bindings : Bindings
  lookups : Lookups
  resolved : Resolved
  identitySource : String
  /-- The resolution is that of the bindings. -/
  resolved_eq : resolveSubjects bindings (found lookups) = .ok resolved

namespace PolicySource

/-- The `adversary:` names this load could not resolve. -/
def unresolvedAdversaries (source : PolicySource) : List String :=
  source.resolved.problems.filterMap fun
    | .unresolvedAdversary name => some name
    | _ => none

/-- The identity layer the bindings declare. -/
def identityLayer (source : PolicySource) (label : String)
    (bindingsSha256 : Option (Vector UInt8 32)) : IdentityLayer :=
  IdentityLayer.withClaims
    { source := source.identitySource
      label := label
      bindingsSha256 := bindingsSha256
      subjects := source.resolved.subjects.map fun (uid, role, name) ↦ ⟨uid, name, role.key⟩
      aliases := ∅ }
    source.resolved.adversaryNames

end PolicySource

/-! ### What the loop over the uids leaves -/

theorem subjects_foldl_resolveUid (held : List (UInt32 × List (ℕ × BindingEntry)))
    (out : Resolved) :
    (held.foldl resolveUid out).subjects =
      out.subjects ++ held.filterMap fun h ↦ boundSubject h.1 h.2 := by
  induction held generalizing out with
  | nil => simp
  | cons h held ih =>
    rw [foldl_cons, ih, resolveUid, filterMap_cons]
    cases boundSubject h.1 h.2 with
    | none | some s => simp

theorem problems_foldl_resolveUid (held : List (UInt32 × List (ℕ × BindingEntry)))
    (out : Resolved) :
    (held.foldl resolveUid out).problems =
      out.problems ++ held.filterMap fun h ↦ subjectProblem h.1 h.2 := by
  induction held generalizing out with
  | nil => simp
  | cons h held ih =>
    rw [foldl_cons, ih, resolveUid, filterMap_cons]
    cases subjectProblem h.1 h.2 with
    | none | some s => simp

/-- Only an entry that did not resolve is reported as an unresolved adversary. -/
theorem subjectProblem_ne_unresolvedAdversary (uid : UInt32) (entries : List (ℕ × BindingEntry))
    (name : String) : subjectProblem uid entries ≠ some (.unresolvedAdversary name) := by
  unfold subjectProblem
  dsimp only
  split
  · split_ifs <;> simp
  · simp
  · simp

variable {entries : List (ℕ × BindingEntry)} {uid : UInt32} {lookup : UidMap}

theorem fst_of_boundSubject {s : UInt32 × Role × String} (h : boundSubject uid entries = some s) :
    s.1 = uid := by
  unfold boundSubject at h
  split at h
  · cases h
    rfl
  · obtain ⟨e, -, rfl⟩ := map_eq_some_iff.mp h
    rfl
  · cases h

/-- A contained subject is named by one of the entries that contain it. -/
theorem exists_adversary_of_boundSubject {name}
    (h : boundSubject uid entries = some (uid, .adversary, name)) :
    ∃ e ∈ entries, roleAt e.1 = .adversary ∧ e.2.render = name := by
  unfold boundSubject at h
  split at h
  case h_1 first _ hfirst =>
    simp only [some.injEq, Prod.mk.injEq, true_and] at h
    exact ⟨first, mem_of_find?_eq_some hfirst, by simpa using find?_some hfirst, h⟩
  case h_2 =>
    obtain ⟨e, he, heq⟩ := map_eq_some_iff.mp h
    simp only [Prod.mk.injEq, true_and] at heq
    exact ⟨e, mem_of_mem_head? he, heq⟩
  case h_3 => cases h

/-- One of the entries contains its uid by the name `n`. -/
def Names (entries : List (ℕ × BindingEntry)) (n : String) : Prop :=
  ∃ e ∈ entries, roleAt e.1 = .adversary ∧ e.2 = .name n

instance (entries : List (ℕ × BindingEntry)) (n : String) : Decidable (Names entries n) :=
  inferInstanceAs (Decidable (∃ e ∈ entries, _ ∧ _))

theorem getElem?_foldl_recordName (uid : UInt32) (entries : List (ℕ × BindingEntry))
    (names : UidMap) (n : String) :
    (entries.foldl (recordName uid) names)[n]? =
      if Names entries n then some uid else names[n]? := by
  induction entries generalizing names with
  | nil => simp [Names]
  | cons e entries ih =>
    have hcons : Names (e :: entries) n ↔
        (roleAt e.1 = .adversary ∧ e.2 = .name n) ∨ Names entries n := by
      simp [Names]
    rw [foldl_cons, ih]
    by_cases hrest : Names entries n
    · rw [if_pos hrest, if_pos (hcons.mpr (.inr hrest))]
    rw [if_neg hrest]
    obtain ⟨idx, m | u⟩ := e
    · by_cases hidx : roleAt idx = .adversary
      · by_cases hm : m = n
        · subst hm
          rw [if_pos (hcons.mpr (.inl ⟨hidx, rfl⟩)), recordName, if_pos hidx, getElem?_insert_self]
        · rw [if_neg (by simp [hcons, hrest, hm]), recordName, if_pos hidx,
            Std.ExtTreeMap.getElem?_insert, if_neg (by simp [hm])]
      · rw [if_neg (by simp [hcons, hrest, hidx]), recordName, if_neg hidx]
    · rw [if_neg (by simp [hcons, hrest]), recordName]

/-- **The recorded names**, when no name is held by two uids. -/
theorem getElem?_adversaryNames_foldl {held : List (UInt32 × List (ℕ × BindingEntry))}
    (hlookup : ∀ h ∈ held, ∀ n, Names h.2 n → lookup[n]? = some h.1) (out : Resolved) (n : String) :
    (held.foldl resolveUid out).adversaryNames[n]? =
      if ∃ h ∈ held, Names h.2 n then lookup[n]? else out.adversaryNames[n]? := by
  induction held generalizing out with
  | nil => simp
  | cons h held ih =>
    rw [foldl_cons, ih fun g hg ↦ hlookup g (mem_cons_of_mem h hg)]
    by_cases hrest : ∃ g ∈ held, Names g.2 n
    · have hcons := hrest.imp fun g hg ↦ And.imp_left (mem_cons_of_mem h) hg
      rw [if_pos hrest, if_pos hcons]
    rw [if_neg hrest, resolveUid, getElem?_foldl_recordName]
    by_cases hn : Names h.2 n
    · rw [if_pos hn, if_pos ⟨h, mem_cons_self, hn⟩, hlookup h mem_cons_self n hn]
    · rw [if_neg hn, if_neg (by simpa [hn] using hrest)]

/-! ### The layer a load declares -/

/-- The sorted entries behind a resolution. -/
structure SortedEntries (lookup : UidMap) (resolved : Resolved)
    (held : List (UInt32 × List (ℕ × BindingEntry))) (unresolved : List (ℕ × BindingEntry)) :
    Prop where
  resolved_eq : resolved = held.foldl resolveUid ⟨[], unresolved.map unresolvedProblem, ∅⟩
  distinct : held.Pairwise fun g h ↦ g.1 ≠ h.1
  of_held : ∀ h ∈ held, ∀ e ∈ h.2, e.2.Grammatical ∧ entryUid lookup e.2 = some h.1
  of_unresolved : ∀ e ∈ unresolved, e.2.Grammatical ∧ entryUid lookup e.2 = none

theorem exists_sortedEntries {bindings resolved}
    (h : resolveSubjects bindings lookup = .ok resolved) :
    ∃ held unresolved, SortedEntries lookup resolved held unresolved := by
  obtain ⟨roles, hroles, hresolved⟩ := bind_eq_ok.mp h
  obtain ⟨hheld, hunresolved⟩ := of_mem_subjectsByUid roles (entryUid lookup)
  have hgrammar : ∀ x ∈ flatEntries roles, x.2.Grammatical := by
    intro x hx
    obtain ⟨⟨idx, entries⟩, hmem, hx⟩ := mem_flatMap.mp hx
    obtain ⟨e, he, rfl⟩ := mem_map.mp hx
    obtain ⟨map, hmap, role, hrole⟩ := exists_role_of_checkedRoles hroles hmem
    exact bindings.grammatical map hmap role entries hrole e he
  refine ⟨_, _, (pure_eq_ok.mp hresolved).symm, ?_, ?_, ?_⟩
  · refine distinct_keys_toList.imp fun {g h} hne heq ↦ hne ?_
    rw [heq]
    exact Std.ReflCmp.compare_self
  · rintro ⟨u, entries⟩ hmem e he
    obtain ⟨hflat, huid⟩ :=
      hheld u entries (mem_toList_iff_getElem?_eq_some.mp hmem) e he
    exact ⟨hgrammar e hflat, huid⟩
  · intro e he
    obtain ⟨hflat, huid⟩ := hunresolved e he
    exact ⟨hgrammar e hflat, huid⟩

/-- A name of the grammar is not spelled like a bare uid. -/
theorem ne_subjectKey_of_nameFault {n} (h : nameFault n = none) (u : UInt32) :
    n ≠ subjectKey u := by
  rintro rfl
  refine colon_not_mem_of_nameFault h ?_
  rw [show subjectKey u = (BindingEntry.uid u).render from rfl, BindingEntry.toList_render_uid]
  simp

namespace SortedEntries

variable {lookup : UidMap} {resolved : Resolved}
  {held : List (UInt32 × List (ℕ × BindingEntry))} {unresolved : List (ℕ × BindingEntry)}

variable {n : String} {u : UInt32}

variable (sorted : SortedEntries lookup resolved held unresolved)

include sorted

/-- A name among the entries of a uid is one the host gave that uid for. -/
theorem lookup_of_names {h : UInt32 × List (ℕ × BindingEntry)} (hh : h ∈ held) (hn : Names h.2 n) :
    nameFault n = none ∧ lookup[n]? = some h.1 := by
  obtain ⟨e, he, -, hname⟩ := hn
  have hentry := sorted.of_held h hh e he
  rw [hname] at hentry
  exact hentry

theorem getElem?_adversaryNames (n : String) :
    resolved.adversaryNames[n]? = if ∃ h ∈ held, Names h.2 n then lookup[n]? else none := by
  rw [sorted.resolved_eq,
    getElem?_adversaryNames_foldl fun h hh n hn ↦ (sorted.lookup_of_names hh hn).2]
  rfl

/-- A recorded name is one of the grammar and resolves to the uid it is recorded for. -/
theorem of_adversaryNames (h : resolved.adversaryNames[n]? = some u) :
    nameFault n = none ∧ lookup[n]? = some u := by
  rw [sorted.getElem?_adversaryNames] at h
  split_ifs at h with hn
  obtain ⟨g, hg, hname⟩ := hn
  exact ⟨(sorted.lookup_of_names hg hname).1, h⟩

theorem subjects_eq : resolved.subjects = held.filterMap fun h ↦ boundSubject h.1 h.2 := by
  rw [sorted.resolved_eq, subjects_foldl_resolveUid, nil_append]

/-- A subject contained under a name is recorded under it; the others carry their bare uid. -/
theorem name_of_adversary (h : (u, Role.adversary, n) ∈ resolved.subjects) :
    n = subjectKey u ∨ resolved.adversaryNames[n]? = some u := by
  rw [sorted.subjects_eq] at h
  obtain ⟨⟨v, entries⟩, hmem, hbound⟩ := mem_filterMap.mp h
  obtain rfl : u = v := fst_of_boundSubject hbound
  obtain ⟨⟨idx, e⟩, he, hrole, hrender⟩ := exists_adversary_of_boundSubject hbound
  obtain ⟨-, huid⟩ := sorted.of_held _ hmem _ he
  cases e with
  | uid w =>
    obtain rfl : w = u := some.inj huid
    exact .inl hrender.symm
  | name m =>
    obtain rfl : m = n := hrender
    right
    rw [sorted.getElem?_adversaryNames, if_pos ⟨_, hmem, _, he, hrole, rfl⟩]
    exact huid

/-- No uid is bound twice. -/
theorem pairwise_subjects : resolved.subjects.Pairwise fun s t ↦ s.1 ≠ t.1 := by
  rw [sorted.subjects_eq]
  refine sorted.distinct.filterMap _ fun g h hne s hs t ht ↦ ?_
  rwa [fst_of_boundSubject hs, fst_of_boundSubject ht]

/-- The problems name as unresolved adversaries exactly what the host does not know. -/
theorem of_unresolvedAdversary (h : .unresolvedAdversary n ∈ resolved.problems) :
    nameFault n = none ∧ lookup[n]? = none := by
  rw [sorted.resolved_eq, problems_foldl_resolveUid] at h
  rcases mem_append.mp h with h | h
  · obtain ⟨⟨idx, e⟩, he, hproblem⟩ := mem_map.mp h
    obtain ⟨hgrammar, huid⟩ := sorted.of_unresolved _ he
    cases e with
    | uid u => cases huid
    | name m =>
      unfold unresolvedProblem at hproblem
      split at hproblem
      · obtain rfl : m = n := IdentityProblem.unresolvedAdversary.inj hproblem
        exact ⟨hgrammar, huid⟩
      · cases hproblem
  · obtain ⟨g, -, hproblem⟩ := mem_filterMap.mp h
    exact absurd hproblem (subjectProblem_ne_unresolvedAdversary _ _ _)

end SortedEntries

namespace PolicySource

variable (source : PolicySource) (label : String) (bindingsSha256 : Option (Vector UInt8 32))

theorem mem_unresolvedAdversaries {n} :
    n ∈ source.unresolvedAdversaries ↔ .unresolvedAdversary n ∈ source.resolved.problems := by
  unfold unresolvedAdversaries
  rw [mem_filterMap]
  constructor
  · rintro ⟨p, hp, heq⟩
    split at heq
    · cases heq
      exact hp
    · cases heq
  · intro h
    exact ⟨_, h, rfl⟩

/-- The name a contained subject carries is recorded for it. -/
theorem adversaryNames_of_ownName {s n}
    (hs : s ∈ (source.identityLayer label bindingsSha256).subjects)
    (hn : IdentityLayer.OwnName s n) : source.resolved.adversaryNames[n]? = some s.uid := by
  obtain ⟨held, unresolved, sorted⟩ := exists_sortedEntries source.resolved_eq
  obtain ⟨hrole, hkey, rfl⟩ := hn
  obtain ⟨⟨u, role, n⟩, hmem, rfl⟩ := mem_map.mp hs
  obtain rfl : role = .adversary := Role.key_injective hrole
  exact (sorted.name_of_adversary hmem).resolve_left hkey

theorem ne_subjectKey_of_adversaryNames {n u}
    (hn : source.resolved.adversaryNames[n]? = some u) : n ≠ subjectKey u := by
  obtain ⟨held, unresolved, sorted⟩ := exists_sortedEntries source.resolved_eq
  exact ne_subjectKey_of_nameFault (sorted.of_adversaryNames hn).1 u

/-- The declared layer claims the recorded names. -/
theorem claims_identityLayer :
    (source.identityLayer label bindingsSha256).claims = source.resolved.adversaryNames :=
  IdentityLayer.claims_withClaims
    (fun _ hs _ hn ↦ source.adversaryNames_of_ownName label bindingsSha256 hs hn)
    fun _ _ hn ↦ source.ne_subjectKey_of_adversaryNames hn

/-- **The declared layer is one containment can be carried onto.** -/
theorem declared_identityLayer :
    Declared (source.identityLayer label bindingsSha256) source.unresolvedAdversaries := by
  obtain ⟨held, unresolved, sorted⟩ := exists_sortedEntries source.resolved_eq
  have hclaims := source.claims_identityLayer label bindingsSha256
  refine ⟨?_, ?_, ?_, ?_⟩
  · intro s hs n hn
    rw [hclaims]
    exact source.adversaryNames_of_ownName label bindingsSha256 hs hn
  · intro n u hn
    rw [hclaims] at hn
    exact source.ne_subjectKey_of_adversaryNames hn
  · intro n hn
    rw [mem_unresolvedAdversaries] at hn
    rw [hclaims, sorted.getElem?_adversaryNames, (sorted.of_unresolvedAdversary hn).2, ite_self]
  · intro n hn u
    rw [mem_unresolvedAdversaries] at hn
    exact ne_subjectKey_of_nameFault (sorted.of_unresolvedAdversary hn).1 u

theorem pairwise_identityLayer :
    (source.identityLayer label bindingsSha256).subjects.Pairwise fun s t ↦ s.uid ≠ t.uid := by
  obtain ⟨held, unresolved, sorted⟩ := exists_sortedEntries source.resolved_eq
  exact pairwise_map.mpr sorted.pairwise_subjects

theorem ordered_identityLayer :
    (source.identityLayer label bindingsSha256).subjects.Pairwise
      fun s t ↦ s.uid.toNat < t.uid.toNat := by
  obtain ⟨roles, -, hresolved⟩ := bind_eq_ok.mp source.resolved_eq
  have hsubjects : source.resolved.subjects = _ :=
    congrArg Resolved.subjects (pure_eq_ok.mp hresolved).symm
  rw [subjects_foldl_resolveUid] at hsubjects
  refine pairwise_map.mpr ?_
  rw [hsubjects]
  refine ordered_keys_toList.filterMap _ fun g h hlt s hs t ht ↦ ?_
  show s.1.toNat < t.1.toNat
  rw [fst_of_boundSubject hs, fst_of_boundSubject ht]
  exact UInt32.lt_iff_toNat_lt.mp (Std.compare_eq_lt.mp hlt)

end PolicySource

end Maknae.Authz
