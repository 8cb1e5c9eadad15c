import Maknae.Authz.LayerRole
import Maknae.Config.CanonicalText

/-!
# The role of a uid, from the bindings file

`directRole` says which role a uid has by looking at the bindings section and the host's answers
only. A uid under `adversary` is contained, and so is one that is carried forward for an adversary
name that no longer resolves; a uid listed under exactly one other role has that role; any other uid
has none.

The daemon gets its answer another way: it groups the entries by uid, folds the roles of each group,
carries containments forward, writes the layer into a graph, reads it back and hops over the
compiled snapshot. `roleFor_compile_eq_directRole` says that the two agree.
-/

namespace Maknae.Authz

open List hiding Vector
open Config Except StateGraph Std

/-! ### The specification -/

/-- Some entry under the role resolves to the uid. -/
def listed (map : RoleMap) (lookup : UidMap) (uid : UInt32) (role : Role) : Bool :=
  map[role.key]?.any fun entries ↦ entries.any fun e ↦ entryUid lookup e == some uid

/-- The uid is claimed for an adversary name that does not resolve. -/
def carriedFor (map : RoleMap) (lookup : UidMap) (claims : Claims) (uid : UInt32) : Bool :=
  map[adversary]?.any fun entries ↦ entries.any fun
    | .name n => lookup[n]?.isNone && claims[n]? == some uid
    | .uid _ => false

/-- The role that alone passes a test. -/
def soleRole (p : Role → Bool) : Option Role :=
  match roleOrder.filter p with
  | [r] => some r
  | _ => none

/-- The role of a uid. -/
def directRole (roles : Option RoleMap) (lookup : UidMap) (claims : Claims)
    (uid principalUid : UInt32) : Resolution :=
  match roles with
  | none => if uid = principalUid then .role .admin else .noRole
  | some map =>
    if listed map lookup uid .adversary || carriedFor map lookup claims uid then .role .adversary
    else (soleRole (listed map lookup uid)).elim .noRole .role

/-- What a role's key lists in the bindings. -/
def entriesAt (roles : Option RoleMap) (key : String) : List BindingEntry :=
  (roles.bind fun map ↦ map[key]?).getD []

variable {map : RoleMap} {key : String} {lookup : UidMap} {role : Role} {uid : UInt32}
  {roles : List (ℕ × List BindingEntry)} {idx : ℕ} {x : ℕ × BindingEntry} {bindings : Bindings}
  {resolved : Resolved}

theorem mem_entriesAt {e} :
    e ∈ entriesAt (some map) key ↔ ∃ entries, map[key]? = some entries ∧ e ∈ entries := by
  unfold entriesAt
  rw [Option.bind_some]
  cases map[key]? <;> simp

theorem listed_eq_true_iff :
    listed map lookup uid role = true ↔
      ∃ e ∈ entriesAt (some map) role.key, entryUid lookup e = some uid := by
  unfold listed entriesAt
  rw [Option.bind_some]
  cases map[role.key]? <;> simp

theorem carriedFor_eq_true_iff {claims} :
    carriedFor map lookup claims uid = true ↔ ∃ n, .name n ∈ entriesAt (some map) adversary ∧
      lookup[n]? = none ∧ claims[n]? = some uid := by
  unfold carriedFor entriesAt
  rw [Option.bind_some]
  cases map[adversary]? with
  | none => simp
  | some entries =>
    rw [Option.any_some, any_eq_true]
    constructor
    · rintro ⟨e, he, hclaim⟩
      cases e with
      | uid u => cases hclaim
      | name n =>
        simp only [Bool.and_eq_true, Option.isNone_iff_eq_none, beq_iff_eq] at hclaim
        exact ⟨n, he, hclaim⟩
    · rintro ⟨n, he, hlookup, hclaim⟩
      exact ⟨.name n, he, by simp [hlookup, hclaim]⟩

theorem soleRole_eq_some_iff {p : Role → Bool} {r} :
    soleRole p = some r ↔ p r ∧ ∀ r', p r' → r' = r := by
  have hsingle : soleRole p = some r ↔ roleOrder.filter p = [r] := by
    unfold soleRole
    split
    · rename_i r' hr'
      rw [hr', Option.some_inj, singleton_inj]
    · rename_i hne
      exact ⟨nofun, fun h ↦ absurd h (hne r)⟩
  rw [hsingle]
  constructor
  · intro h
    have hmem : ∀ r', p r' → r' ∈ roleOrder.filter p := fun r' hr' ↦
      mem_filter.mpr ⟨by cases r' <;> decide, hr'⟩
    refine ⟨(mem_filter.mp (h ▸ mem_singleton_self r)).2, fun r' hr' ↦ ?_⟩
    exact mem_singleton.mp (h ▸ hmem r' hr')
  · rintro ⟨hr, hall⟩
    have hp : p = fun r' ↦ r' == r := by
      funext r'
      rw [Bool.eq_iff_iff, beq_iff_eq]
      exact ⟨hall r', fun heq ↦ heq ▸ hr⟩
    rw [hp]
    cases r <;> decide

/-! ### Grouped entries -/

theorem foldl_holdEntry (uidOf : BindingEntry → Option UInt32) (l : List (ℕ × BindingEntry))
    (acc : HeldBy × List (ℕ × BindingEntry)) (hacc : ∀ u : UInt32, acc.1[u]? ≠ some []) :
    (∀ u : UInt32, (l.foldl (holdEntry uidOf) acc).1[u]?.getD [] =
      acc.1[u]?.getD [] ++ l.filter fun x ↦ uidOf x.2 = some u) ∧
    (∀ u : UInt32, (l.foldl (holdEntry uidOf) acc).1[u]? ≠ some []) ∧
    (l.foldl (holdEntry uidOf) acc).2 = acc.2 ++ l.filter fun x ↦ uidOf x.2 = none := by
  induction l generalizing acc with
  | nil => simpa using hacc
  | cons x l ih =>
    rw [foldl_cons]
    cases huid : uidOf x.2 with
    | none =>
      have hstep : holdEntry uidOf acc x = (acc.1, acc.2 ++ [x]) := by
        rw [holdEntry, huid]
      rw [hstep]
      obtain ⟨hheld, hne, hunresolved⟩ := ih (acc.1, acc.2 ++ [x]) hacc
      refine ⟨fun u ↦ ?_, hne, ?_⟩
      · rw [hheld, filter_cons_of_neg (by simp [huid])]
      · rw [hunresolved, filter_cons_of_pos (by simp [huid]), append_assoc]
        rfl
    | some v =>
      have hstep : holdEntry uidOf acc x =
          (acc.1.insert v (acc.1[v]?.getD [] ++ [x]), acc.2) := by
        rw [holdEntry, huid]
      rw [hstep]
      have hacc' : ∀ u : UInt32, (acc.1.insert v (acc.1[v]?.getD [] ++ [x]))[u]? ≠ some [] := by
        intro u
        rw [ExtTreeMap.getElem?_insert_ite]
        split_ifs
        · simp
        · exact hacc u
      obtain ⟨hheld, hne, hunresolved⟩ :=
        ih (acc.1.insert v (acc.1[v]?.getD [] ++ [x]), acc.2) hacc'
      refine ⟨fun u ↦ ?_, hne, ?_⟩
      · rw [hheld, ExtTreeMap.getElem?_insert_ite]
        split_ifs with huv
        · subst huv
          rw [filter_cons_of_pos (by simp [huid]), Option.getD_some, append_assoc]
          rfl
        · rw [filter_cons_of_neg (by simpa [huid] using fun h ↦ huv h.symm)]
      · rw [hunresolved, filter_cons_of_neg (by simp [huid])]

/-- The entries of a uid, with the positions of their roles. -/
def entriesOf (roles : List (ℕ × List BindingEntry)) (lookup : UidMap) (uid : UInt32) :
    List (ℕ × BindingEntry) :=
  (flatEntries roles).filter fun x ↦ entryUid lookup x.2 = some uid

theorem entriesOf_congr {lookup lookup'}
    (h : ∀ x ∈ flatEntries roles, entryUid lookup x.2 = entryUid lookup' x.2) (uid : UInt32) :
    entriesOf roles lookup uid = entriesOf roles lookup' uid :=
  filter_congr fun x hx ↦ by rw [h x hx]

/-- **The groups of entries**: those of each uid that has any, and those that resolve to none. -/
theorem subjectsByUid_eq (roles : List (ℕ × List BindingEntry)) (lookup : UidMap) :
    (∀ (u : UInt32) l, (subjectsByUid roles (entryUid lookup)).1[u]? = some l ↔
      l ≠ [] ∧ l = entriesOf roles lookup u) ∧
    (subjectsByUid roles (entryUid lookup)).2 =
      (flatEntries roles).filter fun x ↦ entryUid lookup x.2 = none := by
  obtain ⟨hheld, hne, hunresolved⟩ :=
    foldl_holdEntry (entryUid lookup) (flatEntries roles) (∅, []) (by simp)
  refine ⟨fun u l ↦ ?_, hunresolved.trans (nil_append _)⟩
  have hu := hheld u
  have hu' := hne u
  rw [show (flatEntries roles).foldl (holdEntry (entryUid lookup)) (∅, []) =
    subjectsByUid roles (entryUid lookup) from rfl] at hu hu'
  cases hget : (subjectsByUid roles (entryUid lookup)).1[u]? with
  | none =>
    rw [hget] at hu
    refine ⟨nofun, fun h ↦ absurd (h.2.trans hu.symm) h.1⟩
  | some l' =>
    rw [hget] at hu
    rw [hget] at hu'
    rw [Option.some_inj]
    constructor
    · rintro rfl
      exact ⟨fun hnil ↦ hu' (congrArg some hnil), hu⟩
    · exact fun h ↦ hu.trans h.2.symm

/-! ### The entries of a section -/

theorem roleAt_of_idxOf? (h : bindingRoles.idxOf? key = some idx) :
    idx < 4 ∧ (roleAt idx).key = key := by
  have hmem : key ∈ bindingRoles := by
    by_contra hnot
    rw [idxOf?_eq_none_iff.mpr hnot] at h
    cases h
  simp only [bindingRoles, mem_cons, not_mem_nil, or_false] at hmem
  rcases hmem with rfl | rfl | rfl | rfl
  all_goals
    cases h
    decide

theorem roleAt_inj : ∀ i < 4, ∀ j < 4, roleAt i = roleAt j → i = j := by
  decide

/-- The entries of checked lists are those of the section, with the position of their role. -/
theorem mem_flatEntries_iff (h : checkedRoles (some map) = .ok roles) :
    x ∈ flatEntries roles ↔ x.1 < 4 ∧
      ∃ entries, map[(roleAt x.1).key]? = some entries ∧ x.2 ∈ entries := by
  obtain ⟨idx, e⟩ := x
  rw [flatEntries, mem_flatMap]
  constructor
  · rintro ⟨⟨i, entries⟩, hmem, hx⟩
    obtain ⟨e', he', heq⟩ := mem_map.mp hx
    cases heq
    obtain ⟨⟨role, list⟩, hlist, hcheck⟩ := exists_of_mem_mapM h hmem
    obtain ⟨idx, hidx, heq⟩ := checkRole_eq_ok hcheck
    cases heq
    obtain ⟨hlt, hkey⟩ := roleAt_of_idxOf? hidx
    refine ⟨hlt, entries, ?_, he'⟩
    rw [hkey]
    exact ExtTreeMap.mem_toList_iff_getElem?_eq_some.mp hlist
  · rintro ⟨hlt, entries, hmap, he⟩
    obtain ⟨out, hout, hcheck⟩ := (mapM_eq_ok.mp h).exists_mem_right
      (ExtTreeMap.mem_toList_iff_getElem?_eq_some.mpr hmap)
    obtain ⟨i, hidx, rfl⟩ := checkRole_eq_ok hcheck
    obtain ⟨hi, hkey⟩ := roleAt_of_idxOf? hidx
    obtain rfl : i = idx := roleAt_inj i hi idx hlt (Role.key_injective hkey)
    exact ⟨(i, entries), hout, mem_map.mpr ⟨e, he, rfl⟩⟩

/-! ### The role a group of entries binds -/

/-- The role an outcome binds to. -/
def effectiveRole : Effective → Option Role
  | .bound idx => some (roleAt idx)
  | .contained => some .adversary
  | .unbound => none

theorem effective_eq_contained_iff {roles} :
    effective roles = some .contained ↔ adversaryIndex ∈ roles := by
  unfold effective
  cases roles with
  | nil => simp
  | cons first rest =>
    rw [head?_cons, Option.map_some, ← contains_iff_mem]
    split_ifs with hadversary
    · exact iff_of_true rfl hadversary
    · exact iff_of_false nofun hadversary
    · exact iff_of_false nofun hadversary

theorem effective_eq_bound {roles} (h : effective roles = some (.bound idx)) :
    roles.head? = some idx ∧ adversaryIndex ∉ roles := by
  unfold effective at h
  cases roles with
  | nil => cases h
  | cons first rest =>
    rw [head?_cons, Option.map_some, Option.some_inj] at h
    split_ifs at h with hadversary
    rw [contains_iff_mem] at hadversary
    exact ⟨congrArg some (Effective.bound.inj h), hadversary⟩

/-- At positions in range, only containment comes to `adversary`. -/
theorem effective_eq_contained_of_role {roles} (hlt : ∀ i ∈ roles, i < 4)
    (h : (effective roles).bind effectiveRole = some .adversary) :
    effective roles = some .contained := by
  obtain ⟨outcome, houtcome, hrole⟩ := Option.bind_eq_some_iff.mp h
  cases outcome with
  | contained => exact houtcome
  | unbound => cases hrole
  | bound idx =>
    obtain ⟨hhead, hnot⟩ := effective_eq_bound houtcome
    have hmem : idx ∈ roles := mem_of_head? hhead
    obtain rfl : idx = 3 := roleAt_inj idx (hlt idx hmem) 3 (by decide) (Option.some.inj hrole)
    exact absurd hmem hnot

/-- The subject the entries of a uid bind has the role they come to. -/
theorem role_boundSubject_eq (uid : UInt32) (entries : List (ℕ × BindingEntry)) :
    (boundSubject uid entries).map (fun s ↦ s.2.1) =
      (effective (entries.map Prod.fst)).bind effectiveRole := by
  unfold boundSubject
  rcases heffective : effective (entries.map Prod.fst) with - | (idx | - | -)
  · rfl
  · obtain ⟨hhead, -⟩ := effective_eq_bound heffective
    cases entries with
    | nil => cases hhead
    | cons x rest =>
      obtain rfl : x.1 = idx := Option.some.inj hhead
      rfl
  · obtain ⟨x, hx, hidx⟩ := mem_map.mp (effective_eq_contained_iff.mp heffective)
    obtain ⟨first, hfirst⟩ : ∃ first, firstAdversary entries = some first := by
      refine Option.isSome_iff_exists.mp (find?_isSome.mpr ⟨x, hx, ?_⟩)
      rw [hidx]
      rfl
    rw [hfirst]
    rfl
  · rfl

theorem role_boundSubject_of_adversary {entries : List (ℕ × BindingEntry)} (hx : x ∈ entries)
    (hidx : x.1 = adversaryIndex) :
    (boundSubject uid entries).map (fun s ↦ s.2.1) = some .adversary := by
  rw [role_boundSubject_eq, effective_eq_contained_iff.mpr (hidx ▸ mem_map_of_mem hx)]
  rfl

/-- Without containment, the entries bind when they all stand under one role. -/
theorem role_boundSubject_of_no_adversary {rest : List (ℕ × BindingEntry)}
    (hnone : ∀ y ∈ x :: rest, y.1 ≠ adversaryIndex) :
    (boundSubject uid (x :: rest)).map (fun s ↦ s.2.1) =
      if ∀ y ∈ x :: rest, y.1 = x.1 then some (roleAt x.1) else none := by
  have hcontains : ((x :: rest).map Prod.fst).contains adversaryIndex = false := by
    rw [← Bool.not_eq_true, contains_iff_mem, mem_map]
    rintro ⟨y, hy, hidx⟩
    exact hnone y hy hidx
  have heffective : effective ((x :: rest).map Prod.fst) =
      some (if ∀ y ∈ x :: rest, y.1 = x.1 then .bound x.1 else .unbound) := by
    have hall : (((x :: rest).map Prod.fst).all (· == x.1)) = true ↔
        ∀ y ∈ x :: rest, y.1 = x.1 := by
      simp
    rw [effective, map_cons, head?_cons, Option.map_some, ← map_cons, hcontains]
    simp only [Bool.false_eq_true, if_false, hall]
  rw [role_boundSubject_eq, heffective]
  split_ifs <;> rfl

section Section

variable (hroles : checkedRoles (some map) = .ok roles)

include hroles

theorem listed_iff {role} : listed map lookup uid role = true ↔
    ∃ x ∈ entriesOf roles lookup uid, roleAt x.1 = role := by
  rw [listed_eq_true_iff]
  constructor
  · rintro ⟨e, he, huid⟩
    obtain ⟨entries, hmap, he⟩ := mem_entriesAt.mp he
    obtain ⟨idx, hlt, hidx⟩ : ∃ idx < 4, roleAt idx = role := by
      cases role
      · exact ⟨0, by decide, rfl⟩
      · exact ⟨1, by decide, rfl⟩
      · exact ⟨2, by decide, rfl⟩
      · exact ⟨3, by decide, rfl⟩
    refine ⟨(idx, e), mem_filter.mpr ⟨(mem_flatEntries_iff hroles).mpr ⟨hlt, entries, ?_, he⟩,
      decide_eq_true huid⟩, hidx⟩
    rwa [hidx]
  · rintro ⟨x, hx, rfl⟩
    obtain ⟨hflat, huid⟩ := mem_filter.mp hx
    obtain ⟨-, entries, hmap, he⟩ := (mem_flatEntries_iff hroles).mp hflat
    exact ⟨x.2, mem_entriesAt.mpr ⟨entries, hmap, he⟩, of_decide_eq_true huid⟩

theorem lt_of_mem_entriesOf {x : ℕ × BindingEntry} (hx : x ∈ entriesOf roles lookup uid) :
    x.1 < 4 :=
  ((mem_flatEntries_iff hroles).mp (mem_filter.mp hx).1).1

/-- The role the entries of a uid bind it to, from the roles it is listed under. -/
theorem role_boundSubject :
    (boundSubject uid (entriesOf roles lookup uid)).map (fun s ↦ s.2.1) =
      if listed map lookup uid .adversary then some .adversary
      else soleRole (listed map lookup uid) := by
  have hlisted {role : Role} := @listed_iff map lookup uid roles hroles role
  have hlt {x : ℕ × BindingEntry} (hx : x ∈ entriesOf roles lookup uid) :=
    lt_of_mem_entriesOf hroles hx
  generalize entriesOf roles lookup uid = entries at hlisted hlt ⊢
  split_ifs with hadversary
  · obtain ⟨x, hx, hrole⟩ := hlisted.mp hadversary
    exact role_boundSubject_of_adversary hx (roleAt_inj x.1 (hlt hx) 3 (by decide) hrole)
  have hnone : ∀ x ∈ entries, x.1 ≠ adversaryIndex := fun x hx hidx ↦
    hadversary (hlisted.mpr ⟨x, hx, hidx ▸ rfl⟩)
  cases entries with
  | nil =>
    have hsole : soleRole (listed map lookup uid) = none := by
      refine Option.eq_none_iff_forall_ne_some.mpr fun r hr ↦ ?_
      obtain ⟨x, hx, -⟩ := hlisted.mp (soleRole_eq_some_iff.mp hr).1
      cases hx
    rw [hsole]
    rfl
  | cons x rest =>
    rw [role_boundSubject_of_no_adversary hnone]
    have hx : listed map lookup uid (roleAt x.1) = true := hlisted.mpr ⟨x, mem_cons_self, rfl⟩
    split_ifs with hall
    · -- all entries stand under the role of the first
      refine (soleRole_eq_some_iff.mpr ⟨hx, fun r hr ↦ ?_⟩).symm
      obtain ⟨y, hy, rfl⟩ := hlisted.mp hr
      rw [hall y hy]
    · -- two entries stand under different roles
      refine (Option.eq_none_iff_forall_ne_some.mpr fun r hr ↦ hall fun y hy ↦ ?_).symm
      obtain ⟨-, hunique⟩ := soleRole_eq_some_iff.mp hr
      have hy' := hunique _ (hlisted.mpr ⟨y, hy, rfl⟩)
      exact roleAt_inj _ (hlt hy) _ (hlt mem_cons_self) (hy'.trans (hunique _ hx).symm)

end Section

/-! ### The layer of a load -/

/-- What a resolution binds and reports, from the entries of the section. -/
structure ResolvedEntries (lookup : UidMap) (resolved : Resolved)
    (roles : List (ℕ × List BindingEntry)) : Prop where
  subjects_iff : ∀ s, s ∈ resolved.subjects ↔
    boundSubject s.1 (entriesOf roles lookup s.1) = some s
  unresolved_iff : ∀ n, .unresolvedAdversary n ∈ resolved.problems ↔
    ∃ x ∈ flatEntries roles, roleAt x.1 = .adversary ∧ x.2 = .name n ∧ lookup[n]? = none

theorem exists_resolvedEntries (h : resolveSubjects bindings lookup = .ok resolved) :
    ∃ roles, checkedRoles bindings.roles = .ok roles ∧ ResolvedEntries lookup resolved roles := by
  obtain ⟨roles, hroles, hresolved⟩ := bind_eq_ok.mp h
  obtain ⟨hheld, hunresolved⟩ := subjectsByUid_eq roles lookup
  have hresolved : resolved = (subjectsByUid roles (entryUid lookup)).1.toList.foldl resolveUid
      ⟨[], (subjectsByUid roles (entryUid lookup)).2.map unresolvedProblem, ∅⟩ :=
    (pure_eq_ok.mp hresolved).symm
  refine ⟨roles, hroles, fun s ↦ ?_, fun n ↦ ?_⟩
  · rw [hresolved, subjects_foldl_resolveUid, nil_append, mem_filterMap]
    constructor
    · rintro ⟨⟨u, l⟩, hmem, hbound⟩
      obtain rfl := fst_of_boundSubject hbound
      obtain ⟨-, rfl⟩ := (hheld _ _).mp (ExtTreeMap.mem_toList_iff_getElem?_eq_some.mp hmem)
      exact hbound
    · intro hbound
      refine ⟨(s.1, entriesOf roles lookup s.1), ?_, hbound⟩
      refine ExtTreeMap.mem_toList_iff_getElem?_eq_some.mpr ((hheld _ _).mpr ⟨?_, rfl⟩)
      intro hnil
      rw [hnil] at hbound
      cases hbound
  · rw [hresolved, problems_foldl_resolveUid, mem_append, mem_map]
    have hno : .unresolvedAdversary n ∉ (subjectsByUid roles (entryUid lookup)).1.toList.filterMap
        fun h ↦ subjectProblem h.1 h.2 := by
      intro hmem
      obtain ⟨g, -, hproblem⟩ := mem_filterMap.mp hmem
      exact subjectProblem_ne_unresolvedAdversary _ _ _ hproblem
    rw [or_iff_left hno, hunresolved]
    constructor
    · rintro ⟨⟨idx, e⟩, hx, hproblem⟩
      obtain ⟨hflat, huid⟩ := mem_filter.mp hx
      have huid : entryUid lookup e = none := of_decide_eq_true huid
      unfold unresolvedProblem at hproblem
      split at hproblem
      · rename_i hrole
        cases e with
        | uid u => cases huid
        | name m =>
          obtain rfl : m = n := IdentityProblem.unresolvedAdversary.inj hproblem
          exact ⟨_, hflat, hrole, rfl, huid⟩
      · cases hproblem
    · rintro ⟨⟨idx, e⟩, hflat, hrole, rfl, hlookup⟩
      refine ⟨(idx, .name n), mem_filter.mpr ⟨hflat, decide_eq_true hlookup⟩, ?_⟩
      rw [unresolvedProblem, hrole]
      rfl

/-- The recorded names are those under `adversary` that the host knows. -/
theorem getElem?_adversaryNames_iff (h : resolveSubjects bindings lookup = .ok resolved)
    (hroles : checkedRoles bindings.roles = .ok roles) {n} {u} :
    resolved.adversaryNames[n]? = some u ↔ Names (flatEntries roles) n ∧ lookup[n]? = some u := by
  obtain ⟨roles', hroles', hresolved⟩ := bind_eq_ok.mp h
  cases hroles.symm.trans hroles'
  obtain ⟨hheld, -⟩ := subjectsByUid_eq roles lookup
  -- the entries of each uid that has any
  have hmem : ∀ g, g ∈ (subjectsByUid roles (entryUid lookup)).1.toList ↔
      g.2 ≠ [] ∧ g.2 = entriesOf roles lookup g.1 := fun g ↦
    ExtTreeMap.mem_toList_iff_getElem?_eq_some.trans (hheld g.1 g.2)
  have hnames : ∀ (v : UInt32) m, Names (entriesOf roles lookup v) m ↔
      Names (flatEntries roles) m ∧ lookup[m]? = some v := by
    intro v m
    constructor
    · rintro ⟨x, hx, hrole, hname⟩
      obtain ⟨hflat, huid⟩ := mem_filter.mp hx
      have huid : entryUid lookup x.2 = some v := of_decide_eq_true huid
      rw [hname] at huid
      exact ⟨⟨x, hflat, hrole, hname⟩, huid⟩
    · rintro ⟨⟨x, hx, hrole, hname⟩, hlookup⟩
      refine ⟨x, mem_filter.mpr ⟨hx, decide_eq_true ?_⟩, hrole, hname⟩
      rw [hname]
      exact hlookup
  have hlookup : ∀ g ∈ (subjectsByUid roles (entryUid lookup)).1.toList, ∀ m, Names g.2 m →
      lookup[m]? = some g.1 := by
    intro g hg m hm
    rw [((hmem g).mp hg).2] at hm
    exact ((hnames g.1 m).mp hm).2
  have hresolved : resolved = (subjectsByUid roles (entryUid lookup)).1.toList.foldl resolveUid
      ⟨[], (subjectsByUid roles (entryUid lookup)).2.map unresolvedProblem, ∅⟩ :=
    (pure_eq_ok.mp hresolved).symm
  rw [hresolved, getElem?_adversaryNames_foldl hlookup]
  split_ifs with hn
  · obtain ⟨g, hg, hn⟩ := hn
    rw [((hmem g).mp hg).2] at hn
    exact ⟨fun hu ↦ ⟨((hnames g.1 n).mp hn).1, hu⟩, And.right⟩
  · refine ⟨fun hu ↦ ?_, fun hu ↦ absurd ⟨(u, entriesOf roles lookup u), ?_⟩ hn⟩
    · rw [ExtTreeMap.getElem?_empty] at hu
      cases hu
    · have hnamed := (hnames u n).mpr hu
      refine ⟨(hmem _).mpr ⟨fun hnil ↦ ?_, rfl⟩, hnamed⟩
      obtain ⟨x, hx, -⟩ := hnamed
      rw [show entriesOf roles lookup u = [] from hnil] at hx
      cases hx

/-- The role a resolution gives a uid is what its entries come to. -/
theorem ResolvedEntries.exists_subject_iff (h : ResolvedEntries lookup resolved roles) :
    (∃ name, (uid, role, name) ∈ resolved.subjects) ↔
      (effective ((entriesOf roles lookup uid).map Prod.fst)).bind effectiveRole = some role := by
  rw [← role_boundSubject_eq uid, Option.map_eq_some_iff]
  constructor
  · rintro ⟨name, hmem⟩
    exact ⟨_, (h.subjects_iff _).mp hmem, rfl⟩
  · rintro ⟨⟨u, r, name⟩, hbound, rfl⟩
    obtain rfl : u = uid := fst_of_boundSubject hbound
    exact ⟨name, (h.subjects_iff _).mpr hbound⟩

theorem find?_uid_eq_some_iff {subjects : List StateGraph.SubjectEntry}
    (h : subjects.Pairwise fun s t ↦ s.uid ≠ t.uid) {s : StateGraph.SubjectEntry} :
    (subjects.find? fun s ↦ s.uid = uid) = some s ↔ s ∈ subjects ∧ s.uid = uid := by
  refine ⟨fun hfind ↦ ⟨mem_of_find?_eq_some hfind, by simpa using find?_some hfind⟩, ?_⟩
  rintro ⟨hs, rfl⟩
  have hfilter : (subjects.filter fun e ↦ e.uid == s.uid) = [s] := filter_key_eq_singleton h hs
  rw [← head?_filter]
  have hsame : (fun e : StateGraph.SubjectEntry ↦ decide (e.uid = s.uid)) =
      fun e ↦ e.uid == s.uid := by
    funext e
    exact (Bool.beq_eq_decide_eq _ _).symm
  rw [hsame, hfilter]
  rfl

section Layer

variable {source : PolicySource} (hmap : source.bindings.roles = some map) (label : String)
  (sha : Option Digest) (uid : UInt32)

include hmap

theorem role_identityLayer :
    ((source.identityLayer label sha).subjects.find? fun s ↦ s.uid = uid).bind
        (fun s ↦ Role.fromKey s.role) =
      if listed map (found source.lookups) uid .adversary then some .adversary
      else soleRole (listed map (found source.lookups) uid) := by
  obtain ⟨roles, hroles, hentries⟩ := exists_resolvedEntries source.resolved_eq
  rw [hmap] at hroles
  rw [← role_boundSubject hroles]
  have hpairwise := source.pairwise_identityLayer label sha
  cases hbound : boundSubject uid (entriesOf roles (found source.lookups) uid) with
  | some s =>
    obtain rfl := fst_of_boundSubject hbound
    have hfind : ((source.identityLayer label sha).subjects.find? fun e ↦ e.uid = s.1) =
        some ⟨s.1, s.2.2, s.2.1.key⟩ :=
      (find?_uid_eq_some_iff hpairwise).mpr
        ⟨mem_map.mpr ⟨s, (hentries.subjects_iff s).mpr hbound, rfl⟩, rfl⟩
    rw [hfind, Option.bind_some, Option.map_some, Role.fromKey_key]
  | none =>
    have hfind : ((source.identityLayer label sha).subjects.find? fun e ↦ e.uid = uid) = none := by
      refine find?_eq_none.mpr fun e he heq ↦ ?_
      obtain ⟨s, hs, rfl⟩ := mem_map.mp he
      have hs := (hentries.subjects_iff s).mp hs
      rw [show s.1 = uid by simpa using heq, hbound] at hs
      cases hs
    rw [hfind]
    rfl

/-- The unresolved adversaries are the names under `adversary` that no lookup found. -/
theorem mem_unresolvedAdversaries_iff {n} :
    n ∈ source.unresolvedAdversaries ↔
      .name n ∈ entriesAt (some map) adversary ∧ (found source.lookups)[n]? = none := by
  obtain ⟨roles, hroles, hentries⟩ := exists_resolvedEntries source.resolved_eq
  rw [hmap] at hroles
  rw [source.mem_unresolvedAdversaries, hentries.unresolved_iff, mem_entriesAt]
  constructor
  · rintro ⟨x, hx, hrole, hname, hlookup⟩
    obtain ⟨-, entries, hentry, he⟩ := (mem_flatEntries_iff hroles).mp hx
    rw [hrole] at hentry
    exact ⟨⟨entries, hentry, hname ▸ he⟩, hlookup⟩
  · rintro ⟨⟨entries, hentry, he⟩, hlookup⟩
    have hmem : (3, .name n) ∈ flatEntries roles :=
      (mem_flatEntries_iff hroles).mpr ⟨show 3 < 4 by decide, entries, hentry, he⟩
    exact ⟨_, hmem, rfl, rfl, hlookup⟩

theorem carriedFor_iff {claims} :
    carriedFor map (found source.lookups) claims uid = true ↔
      ∃ n ∈ source.unresolvedAdversaries, claims[n]? = some uid := by
  rw [carriedFor_eq_true_iff]
  simp only [mem_unresolvedAdversaries_iff hmap, and_assoc]

theorem contains_identityLayer_iff :
    (source.identityLayer label sha).Contains uid ↔
      listed map (found source.lookups) uid .adversary = true := by
  have hrole := role_identityLayer hmap label sha uid
  have hpairwise := source.pairwise_identityLayer label sha
  constructor
  · rintro ⟨s, hs, rfl, hadversary⟩
    rw [(find?_uid_eq_some_iff hpairwise).mpr ⟨hs, rfl⟩, Option.bind_some, hadversary] at hrole
    by_contra hnot
    rw [if_neg hnot] at hrole
    exact hnot (soleRole_eq_some_iff.mp hrole.symm).1
  · intro hlisted
    rw [if_pos hlisted] at hrole
    obtain ⟨s, hfind, hkey⟩ := Option.bind_eq_some_iff.mp hrole
    obtain ⟨hs, huid⟩ := (find?_uid_eq_some_iff hpairwise).mp hfind
    obtain ⟨⟨u, r, name⟩, -, rfl⟩ := mem_map.mp hs
    obtain rfl : r = .adversary := Option.some.inj ((Role.fromKey_key r).symm.trans hkey)
    exact ⟨_, hs, huid, rfl⟩

end Layer

/-! ### The role of a snapshot -/

/-- The role a layer lists a uid under. -/
def subjectRole (layer : IdentityLayer) (uid : UInt32) : Option Role :=
  (layer.subjects.find? fun s ↦ s.uid = uid).bind fun s ↦ Role.fromKey s.role

section NextLayer

variable {load : Load} (hroles : load.source.bindings.roles = some map) (persisted : IdentityLayer)
  (uid : UInt32)

include hroles

/-- The uids a reload contains: those listed under `adversary` and those that are carried. -/
theorem contains_nextLayer_iff :
    (nextLayer persisted load).Contains uid ↔
      listed map (found load.source.lookups) uid .adversary = true ∨
        carriedFor map (found load.source.lookups) persisted.claims uid = true := by
  rw [← contains_identityLayer_iff hroles load.label load.bindingsSha256, carriedFor_iff hroles]
  exact contains_carryForward

/-- A resolved adversary name is claimed for its uid. -/
theorem getElem?_claims_nextLayer_of_resolved {n}
    (hname : .name n ∈ entriesAt (some map) adversary)
    (hlookup : (found load.source.lookups)[n]? = some uid) :
    (nextLayer persisted load).claims[n]? = some uid := by
  have hresolved : n ∉ load.unresolved := fun hn ↦ by
    rw [((mem_unresolvedAdversaries_iff hroles).mp hn).2] at hlookup
    cases hlookup
  rw [nextLayer, getElem?_claims_carryForward (declared_file load), if_neg hresolved]
  have hclaims : load.file.claims = load.source.resolved.adversaryNames :=
    load.source.claims_identityLayer _ _
  obtain ⟨roles, hchecked, -⟩ := exists_resolvedEntries load.source.resolved_eq
  rw [hclaims, getElem?_adversaryNames_iff load.source.resolved_eq hchecked]
  refine ⟨?_, hlookup⟩
  obtain ⟨entries, hentries, he⟩ := mem_entriesAt.mp hname
  rw [hroles] at hchecked
  exact ⟨(3, .name n), (mem_flatEntries_iff hchecked).mpr ⟨show 3 < 4 by decide, entries, hentries,
    he⟩, rfl, rfl⟩

/-- **The contained uids are the claimed ones**: those an entry under `adversary` is, or has a claim
to in the layer itself. -/
theorem contains_nextLayer_iff_claimed :
    (nextLayer persisted load).Contains uid ↔
      ∃ e ∈ entriesAt (some map) adversary,
        entryUid (nextLayer persisted load).claims e = some uid := by
  rw [contains_nextLayer_iff hroles, listed_eq_true_iff, carriedFor_eq_true_iff]
  -- an unresolved name keeps the claim it had
  have hkept {n : String} (hname : .name n ∈ entriesAt (some map) adversary)
      (hnone : (found load.source.lookups)[n]? = none) :
      (nextLayer persisted load).claims[n]? = persisted.claims[n]? :=
    getElem?_claims_nextLayer load persisted
      ((mem_unresolvedAdversaries_iff hroles).mpr ⟨hname, hnone⟩)
  constructor
  · rintro (⟨e, he, huid⟩ | ⟨n, hname, hnone, hclaim⟩)
    · cases e with
      | uid u => exact ⟨_, he, huid⟩
      | name n => exact ⟨_, he, getElem?_claims_nextLayer_of_resolved hroles persisted uid he huid⟩
    · exact ⟨_, hname, (hkept hname hnone).trans hclaim⟩
  · rintro ⟨e, he, huid⟩
    cases e with
    | uid u => exact .inl ⟨_, he, huid⟩
    | name n =>
      cases hlookup : (found load.source.lookups)[n]? with
      | none => exact .inr ⟨n, he, hlookup, (hkept he hlookup).symm.trans huid⟩
      | some u =>
        have hclaim := getElem?_claims_nextLayer_of_resolved hroles persisted u he hlookup
        exact .inl ⟨_, he, hlookup.trans (hclaim.symm.trans huid)⟩

theorem subjectRole_nextLayer :
    subjectRole (nextLayer persisted load) uid =
      if listed map (found load.source.lookups) uid .adversary ||
          carriedFor map (found load.source.lookups) persisted.claims uid then some .adversary
      else soleRole (listed map (found load.source.lookups) uid) := by
  have hpairwise : (nextLayer persisted load).subjects.Pairwise fun s t ↦ s.uid ≠ t.uid :=
    pairwise_carryForward (load.source.pairwise_identityLayer _ _)
  have hcontains := contains_nextLayer_iff hroles persisted uid
  rw [← Bool.or_eq_true] at hcontains
  unfold subjectRole
  split_ifs with hcontained
  · obtain ⟨s, hs, huid, hrole⟩ := hcontains.mpr hcontained
    rw [(find?_uid_eq_some_iff hpairwise).mpr ⟨hs, huid⟩, Option.bind_some, hrole]
    rfl
  · -- nothing is carried for the uid, so its entry is the file's
    rw [← hcontains] at hcontained
    have hfile : ((nextLayer persisted load).subjects.find? fun s ↦ s.uid = uid) =
        load.file.subjects.find? fun s ↦ s.uid = uid := by
      have hperm : ((nextLayer persisted load).subjects.filter fun s ↦ s.uid == uid).Perm
          (load.file.subjects.filter fun s ↦ s.uid == uid) :=
        filter_carryForward_perm fun n hn hclaim ↦
          hcontained (contains_carryForward.mpr (.inr ⟨n, hn, hclaim⟩))
      have hfile : load.file.subjects.Pairwise fun s t ↦ s.uid ≠ t.uid :=
        load.source.pairwise_identityLayer _ _
      refine Option.ext fun s ↦ ?_
      rw [find?_uid_eq_some_iff hpairwise, find?_uid_eq_some_iff hfile]
      have hmem := hperm.mem_iff (a := s)
      simpa [mem_filter] using hmem
    have hlisted : ¬listed map (found load.source.lookups) uid .adversary = true := fun h ↦
      hcontained (contains_carryForward.mpr
        (.inl ((contains_identityLayer_iff hroles load.label load.bindingsSha256 uid).mpr h)))
    rw [hfile, show load.file.subjects = (load.source.identityLayer load.label
      load.bindingsSha256).subjects from rfl, role_identityLayer hroles, if_neg hlisted]

end NextLayer

theorem layerRole_nextLayer (persisted : IdentityLayer) (load : Load)
    (hexplicit : load.bindingsSha256.isSome = load.source.bindings.roles.isSome)
    (uid principalUid : UInt32) :
    layerRole (nextLayer persisted load) uid principalUid =
      directRole load.source.bindings.roles (found load.source.lookups) persisted.claims uid
        principalUid := by
  have hsha : (nextLayer persisted load).bindingsSha256 = load.bindingsSha256 := rfl
  rw [layerRole, hsha]
  cases hroles : load.source.bindings.roles with
  | none =>
    rw [hroles, Option.isSome_none, Option.isSome_eq_false_iff] at hexplicit
    rw [hexplicit]
    rfl
  | some map =>
    rw [hroles] at hexplicit
    rw [Option.isNone_eq_false_iff.mpr hexplicit]
    simp only [Bool.false_eq_true, if_false, directRole]
    have hrole := subjectRole_nextLayer hroles persisted uid
    unfold subjectRole at hrole
    rw [hrole]
    split_ifs
    · rfl
    · cases soleRole (listed map (found load.source.lookups) uid) <;> rfl

/-- The roles of a snapshot are those of the layer it was compiled from. -/
theorem Compiles.roleFor_eq {persisted : Graph} {input : PolicyInput} {vocabulary : CompiledSet}
    {digests : ExtTreeMap String Digest compare} {stored : Extracted} {snap : CompiledSnapshot}
    (h : Compiles persisted input vocabulary digests stored snap) {b : GraphBuilder}
    {schema : Schema} {compiled : CompiledSet} (hbuilt : b.build schema compiled = .ok persisted)
    (uid principalUid : UInt32) :
    snap.loaded.roles.roleFor uid principalUid = layerRole stored.layer uid principalUid := by
  obtain ⟨⟨persisted, bytes⟩, hencoded, rfl⟩ := bind_pure_eq_ok.mp hbuilt
  obtain ⟨c, bytes', hgrew, hgraph⟩ := h.graph_eq
  rw [h.roles_eq]
  exact roleFor_eq_layerRole hencoded (layerRead_of_extract h.extract_eq)
    (sameIdentity_of_grew hencoded hgrew hgraph) uid principalUid

/-- **Role resolution through the compiled graph is the direct one.** The graph is any that holds
the layer a load carried forward from the persisted one, and the snapshot is compiled from it. -/
theorem roleFor_compile_eq_directRole {b : GraphBuilder} {schema : Schema} {compiled : CompiledSet}
    {g : Graph} (hbuilt : b.build schema compiled = .ok g) {input : PolicyInput}
    {digest : String → Digest} {persisted : IdentityLayer} {label : String} {stored : Extracted}
    (hstored : Identity.extract g = .ok stored)
    (hlayer : stored.layer = nextLayer persisted
      ⟨input.toPolicySource, label, (input.sectionDigests digest)["bindings"]?⟩)
    {vocabulary : CompiledSet} {snap : CompiledSnapshot}
    (hcompile : compile g input vocabulary (input.sectionDigests digest) = .ok snap)
    (uid principalUid : UInt32) :
    snap.loaded.roles.roleFor uid principalUid =
      directRole input.bindings.roles (found input.lookups) persisted.claims uid principalUid := by
  obtain ⟨stored', hcompiles⟩ := compiles_of_compile hcompile
  obtain rfl : stored' = stored := ok.inj (hcompiles.extract_eq.symm.trans hstored)
  rw [hcompiles.roleFor_eq hbuilt, hlayer]
  refine layerRole_nextLayer _ _ ?_ uid principalUid
  show ((input.sectionDigests digest)["bindings"]?).isSome = _
  rw [input.getElem?_sectionDigests_bindings, Option.isSome_map, input.section_isSome]

/-- Bindings with an admin and a contained name. -/
def malloryBindings : Bindings :=
  .read (.map [("admin", .seq [.str "alex"]), ("adversary", .seq [.str "mallory"])])
    (.ofList [("admin", [.name "alex"]), ("adversary", [.name "mallory"])] compare) rfl

/-- A load of them on a host where the contained name has no account any more. -/
def malloryLoad : Except AuthzBasicError PolicyInput :=
  PolicyInput.load ⟨⟨[], [], [], []⟩, ∅, ∅, ∅, ∅, ExtTreeMap.not_mem_empty⟩
    ⟨malloryBindings, some "mallory", rfl⟩ (fun n ↦ if n = "alex" then .found 501 else .absent)
    "/etc/maknae/authz.yaml" "/etc/maknae/bindings.yaml"

def malloryInput : PolicyInput := malloryLoad.toOption.get (by decide +kernel)

def malloryDigest : String → Digest := fun _ ↦ Vector.replicate 32 0

/-- The layer from before the account was deleted. -/
def malloryLayer : IdentityLayer :=
  ⟨"/etc/maknae/bindings.yaml", "U", none, [⟨666, "mallory", adversary⟩], ∅⟩

/-- The graph of the layer the load persists. -/
def malloryBuild : Outcome IdentityError Graph :=
  Identity.build (nextLayer malloryLayer ⟨malloryInput.toPolicySource, "U",
    (malloryInput.sectionDigests malloryDigest)["bindings"]?⟩) none none (persistedCompiledSet "U")
    (malloryDigest "") 1 .seed

def malloryGraph : Graph := malloryBuild.toOption.get (by decide +kernel)

/-- The contained uid of the deleted account stays contained. -/
theorem roleFor_compile_eq_directRole_mallory :
    ∃ snap, compile malloryGraph malloryInput (persistedCompiledSet "U")
        (malloryInput.sectionDigests malloryDigest) = .ok snap ∧
      snap.loaded.roles.roleFor 666 501 = .role .adversary := by
  have hbuild : malloryBuild = .ok malloryGraph := eq_ok_of_toOption (Option.some_get _).symm
  have hcompiles : (compile malloryGraph malloryInput (persistedCompiledSet "U")
      (malloryInput.sectionDigests malloryDigest)).toOption.isSome = true := by
    decide +kernel
  obtain ⟨snap, hsnap⟩ := Option.isSome_iff_exists.mp hcompiles
  obtain ⟨⟨b, -, -, hbuilt⟩, -⟩ := exists_written hbuild
  have hread : Readable (nextLayer malloryLayer ⟨malloryInput.toPolicySource, "U",
      (malloryInput.sectionDigests malloryDigest)["bindings"]?⟩) none none :=
    ⟨by decide +kernel, by simp, by simp⟩
  have hextract := extract_build_nextLayer _ _ hread hbuild
  have hrole : directRole malloryInput.bindings.roles (found malloryInput.lookups)
      malloryLayer.claims 666 501 = .role .adversary := by
    decide +kernel
  refine ⟨snap, eq_ok_of_toOption hsnap, ?_⟩
  rw [roleFor_compile_eq_directRole hbuilt hextract rfl (eq_ok_of_toOption hsnap), hrole]

end Maknae.Authz
