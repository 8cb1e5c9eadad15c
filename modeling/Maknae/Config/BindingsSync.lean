import Maknae.Config.Bindings
import Maknae.Foundation.ListMap

/-!
# Merging the bindings file into the live bindings

The daemon keeps three things about its bindings: `base`, the file as it was last merged; `live`,
the bindings it runs; and the `conflicts`, entries that the file and `live` changed in different
ways. A merge takes a new file and decides every entry on its own, by the roles it holds in the
three sections (`mergeEntry`). Where both sides changed an entry, neither wins: the entry is
contained if either side contains it and unbound otherwise.

`merge_live_roles` says that the section `mergedSection` builds realises all those decisions at
once, whatever the order and the number of roles and entries.
-/

namespace Maknae.Config

open List Std

/-! ### Sections -/

abbrev RoleSet := ExtTreeSet String compare

abbrev EntrySet := ExtTreeSet BindingEntry compare

/-- The role that contains. -/
def adversaryRole : String := "adversary"

/-- The roles a live edit may bind a name to. -/
def boundRoles : List String := ["admin", "user", "guest"]

/-- A bindings section: no file, no `bindings:` key, or the lists by role. -/
inductive Section
  | missing
  | absent
  | present (roles : RoleMap)
deriving DecidableEq

def entryValue : BindingEntry → Value
  | .name n => .str n
  | .uid u => .map [("uid", .int u.toNat)]

namespace Section

/-- The section of a load. -/
def ofBindings (b : Bindings) : Section :=
  match b.roles, b.missing with
  | _, true => missing
  | none, false => absent
  | some m, false => present m

/-- The lists of a section that is present. -/
def roles? : Section → Option RoleMap
  | present m => some m
  | _ => none

def isPresent (s : Section) : Bool := s.roles?.isSome

def canonical : Section → String
  | missing => "missing"
  | absent => "null"
  | present m => canonicalJson (.map (m.toList.map fun (k, v) ↦ (k, .seq (v.map entryValue))))

/-- The roles whose lists hold the entry. -/
def rolesOf (s : Section) (e : BindingEntry) : RoleSet :=
  match s with
  | present m => .ofList (m.filter fun _ v ↦ v.contains e).keys compare
  | _ => ∅

/-- The entries of all lists, each once, in order. -/
def entries : Section → List BindingEntry
  | present m => (m.toList.flatMap Prod.snd).foldl pushNew []
  | _ => []

end Section

/-! ### Reading the canonical texts back

`parseJson` stands for the JSON reader. A text is taken only if it is canonical; of a text that is
not taken the store wants no reason, so there is none here. -/

section Canonical

variable (parseJson : String → Option Value)

def valueFromCanonicalJson (s : String) : Option Value :=
  (parseJson s).filter fun v ↦ canonicalJson v = s

/-- The section of a canonical text; it keeps the rules of a section. -/
def Section.fromCanonical (s : String) : Option Section :=
  if s = "missing" then some .missing
  else if s = "null" then some .absent
  else do
    let v ← valueFromCanonicalJson parseJson s
    let roles ← (sectionRoles v).toOption
    let _ ← (checkRoles (some roles)).toOption
    return .present roles

def conflictsCanonical (c : EntrySet) : String := canonicalJson (.seq (c.toList.map entryValue))

/-- The entries of a conflict list, which is sorted and has no entry twice. -/
def conflictsFromCanonical (s : String) : Option EntrySet :=
  match valueFromCanonicalJson parseJson s with
  | some (.seq items) => do
    let entries ← (items.mapM entry).toOption
    let set : EntrySet := .ofList entries compare
    if conflictsCanonical set = s then return set else none
  | _ => none

end Canonical

/-! ### The merge -/

/-- What became of the merged file. -/
inductive SyncKind
  | created
  | unchanged
  | adopted
  | rootFile
  | lost
deriving DecidableEq, Repr

inductive ResolvedBy
  | rootEdit
  | sync
  | liveEdit
deriving DecidableEq, Repr

inductive MergeEvent
  | conflict (entry : BindingEntry) (contained : Bool)
  | resolved (entry : BindingEntry) (by' : ResolvedBy)
  /-- The base is present and the file is missing, or has no `bindings:` key. -/
  | lost (missing : Bool)
deriving DecidableEq, Repr

/-- The stored state of the sync. -/
structure Stored where
  base : Section
  live : Section
  conflicts : EntrySet

structure Merged where
  base : Section
  live : Section
  conflicts : EntrySet
  kind : SyncKind
  events : List MergeEvent

/-- Entries with the roles they are to hold. -/
abbrev Values := List (BindingEntry × RoleSet)

/-- The pairs of a role and an entry of its list, in order. -/
def rolePairs (m : RoleMap) : List (String × BindingEntry) :=
  m.toList.flatMap fun (role, list) ↦ list.map fun e ↦ (role, e)

/-- The pairs of an entry and a role it is to hold, in order. -/
def valuePairs (values : Values) : List (String × BindingEntry) :=
  values.flatMap fun (e, roles) ↦ roles.toList.map fun role ↦ (role, e)

/-- The roles that `values` gives an entry: none where it does not list it. -/
def Values.rolesOf (values : Values) (e : BindingEntry) : RoleSet :=
  (ExtTreeMap.ofList values compare)[e]?.getD ∅

/-- The pairs of the file, of the live section and of `values`, as far as `values` allows them. -/
def mergedPairs (file : RoleMap) (live : Section) (values : Values) :
    List (String × BindingEntry) :=
  (rolePairs file ++ rolePairs (live.roles?.getD ∅) ++ valuePairs values).filter
    fun (role, e) ↦ (values.rolesOf e).contains role

/-- The section in which every entry holds the roles `values` gives it, with the lists and the order
of `shape`, then those of `live`. -/
def mergedSection (shape live : Section) (values : Values) : Section :=
  match shape with
  | .present file =>
    .present ((mergedPairs file live values).foldl addTo (file.map fun _ _ ↦ []))
  | _ => shape

/-- The decision on one entry. -/
structure EntryMerge where
  /-- The roles the entry is to hold. -/
  value : RoleSet
  /-- The entry is left in conflict. -/
  conflict : Bool := false
  event : Option MergeEvent := none
  /-- The file decided. -/
  root : Bool := false
  /-- The file and the live bindings made the same change. -/
  agreed : Bool := false

/-- The fail-closed value of an entry that both sides changed. -/
def safeRoles (f l : RoleSet) : RoleSet :=
  if f.contains adversaryRole || l.contains adversaryRole then {adversaryRole} else ∅

/-- Decide one entry by the roles it holds in the base, the live bindings and the file. -/
def mergeEntry (conflicting : Bool) (b l f : RoleSet) (e : BindingEntry) : EntryMerge :=
  if conflicting then
    if f ≠ b ∨ f = l then
      let resolvedBy := if f = l then .sync else .rootEdit
      { value := f
        event := some (.resolved e resolvedBy)
        root := resolvedBy == .rootEdit
        agreed := resolvedBy == .sync }
    else { value := l, conflict := true }
  else if f = b then { value := l }
  else if l = b then { value := f, root := true }
  else if f = l then { value := f, agreed := true }
  else
    let safe := safeRoles f l
    if safe ≠ f then
      { value := safe
        conflict := true
        event := some (.conflict e (safe ≠ ∅))
        root := true }
    else { value := safe, root := true }

namespace Stored

/-- Every entry of the file and of the stored state, each once. -/
def entryUniverse (st : Stored) (file : Section) : List BindingEntry :=
  (st.live.entries ++ st.base.entries ++ st.conflicts.toList).foldl pushNew file.entries

/-- The decision on an entry. -/
def decideEntry (st : Stored) (file : Section) (e : BindingEntry) : EntryMerge :=
  mergeEntry (st.conflicts.contains e) (st.base.rolesOf e) (st.live.rolesOf e) (file.rolesOf e) e

end Stored

/-- Merge a file into the stored state, entry by entry. -/
def mergeStored (st : Stored) (file : Section) : Merged :=
  let outcomes := (st.entryUniverse file).map fun e ↦ (e, st.decideEntry file e)
  let root := outcomes.any fun o ↦ o.2.root
  let agreed := outcomes.any fun o ↦ o.2.agreed
  let textChanged := file.canonical ≠ st.base.canonical
  let kind : SyncKind :=
    if root then .rootFile
    else if agreed ∨ (textChanged ∧ file.canonical = st.live.canonical) then .adopted
    else if textChanged then .rootFile
    else .unchanged
  { base := file
    live := mergedSection file st.live (outcomes.map fun o ↦ (o.1, o.2.value))
    conflicts := .ofList ((outcomes.filter fun o ↦ o.2.conflict).map Prod.fst) compare
    kind := kind
    events := outcomes.filterMap fun o ↦ o.2.event }

/-- The section is gone from the file, which is not taken as a file that lists nobody. -/
def lostSection (base file : Section) : Bool := base.isPresent && !file.isPresent

/-- What a merge of a file makes of the stored state. -/
def merge (stored : Option Stored) (file : Section) : Merged :=
  match stored with
  | none => ⟨file, file, ∅, .created, []⟩
  | some st =>
    if lostSection st.base file then
      ⟨st.base, st.live, st.conflicts, .lost, [.lost (file = .missing)]⟩
    else mergeStored st file

/-! ### Role sets -/

namespace Section

variable {m : RoleMap} {e : BindingEntry} {s : Section}

theorem mem_rolesOf_present {r} :
    r ∈ (present m).rolesOf e ↔ ∃ l, m[r]? = some l ∧ e ∈ l := by
  rw [rolesOf, ExtTreeSet.mem_ofList, contains_iff_mem, ExtTreeMap.mem_keys,
    ExtTreeMap.mem_iff_isSome_getElem?, ExtTreeMap.getElem?_filter']
  cases m[r]? with
  | none => simp
  | some l => simp [Option.filter]

theorem mem_flatMap_snd :
    e ∈ m.toList.flatMap Prod.snd ↔ ∃ r, r ∈ (present m).rolesOf e := by
  simp only [mem_flatMap, mem_rolesOf_present]
  constructor
  · rintro ⟨⟨r, l⟩, hl, he⟩
    exact ⟨r, l, ExtTreeMap.mem_toList_iff_getElem?_eq_some.mp hl, he⟩
  · rintro ⟨r, l, hl, he⟩
    exact ⟨(r, l), ExtTreeMap.mem_toList_iff_getElem?_eq_some.mpr hl, he⟩

theorem mem_entries : e ∈ s.entries ↔ ∃ r, r ∈ s.rolesOf e := by
  cases s with
  | missing | absent => simp [entries, rolesOf]
  | present m =>
    rw [entries, mem_foldl_pushNew, mem_flatMap_snd]
    simp

theorem rolesOf_eq_empty (h : e ∉ s.entries) :
    s.rolesOf e = ∅ :=
  ExtTreeSet.ext_mem fun r ↦
    ⟨fun hr ↦ absurd (mem_entries.mpr ⟨r, hr⟩) h, fun hr ↦ absurd hr ExtTreeSet.not_mem_empty⟩

theorem nodup_entries (s : Section) : s.entries.Nodup := by
  cases s with
  | missing | absent => exact nodup_nil
  | present m => exact nodup_foldl_pushNew nodup_nil _

/-- The section of bindings, when it is present, holds their lists. -/
theorem exists_roles_of_isPresent {bindings}
    (h : (ofBindings bindings).isPresent = true) :
    ∃ m, ofBindings bindings = .present m ∧ bindings.roles = some m := by
  cases hs : ofBindings bindings with
  | missing | absent =>
    rw [hs] at h
    cases h
  | present m =>
    refine ⟨m, rfl, ?_⟩
    unfold ofBindings at hs
    split at hs
    · cases hs
    · cases hs
    · next m' hroles _ => exact hroles.trans (congrArg some (present.inj hs))

end Section

/-- The list of a role, empty where the section has none. -/
def Section.listAt (s : Section) (role : String) : List BindingEntry :=
  (s.roles?.getD ∅)[role]?.getD []

variable {e : BindingEntry} {r : String}

theorem Section.mem_listAt {s : Section} :
    e ∈ s.listAt r ↔ r ∈ s.rolesOf e := by
  cases s with
  | missing | absent => simp [listAt, rolesOf, roles?]
  | present m =>
    rw [mem_rolesOf_present, listAt, roles?, Option.getD_some]
    cases m[r]? with
    | none | some l => simp

theorem mem_valuePairs {values} :
    (r, e) ∈ valuePairs values ↔ ∃ roles, (e, roles) ∈ values ∧ r ∈ roles := by
  simp only [valuePairs, mem_flatMap, mem_map, Prod.exists]
  constructor
  · rintro ⟨e', roles, hmem, role, hrole, heq⟩
    cases heq
    exact ⟨roles, hmem, ExtTreeSet.mem_toList.mp hrole⟩
  · rintro ⟨roles, hmem, hrole⟩
    exact ⟨e, roles, hmem, r, ExtTreeSet.mem_toList.mpr hrole, rfl⟩

section Values

variable {values : Values} (hnodup : (values.map Prod.fst).Nodup)
include hnodup

variable {e : BindingEntry} {r : String}

theorem Values.rolesOf_of_mem {roles} (h : (e, roles) ∈ values) :
    values.rolesOf e = roles := by
  have hdistinct : values.Pairwise fun a b ↦ ¬compare a.1 b.1 = .eq :=
    (pairwise_map.mp hnodup).imp fun hne heq ↦ hne (LawfulEqOrd.eq_of_compare heq)
  rw [Values.rolesOf, ExtTreeMap.getElem?_ofList_of_mem ReflCmp.compare_self hdistinct h,
    Option.getD_some]

omit hnodup in
theorem Values.rolesOf_of_not_mem (h : e ∉ values.map Prod.fst) :
    values.rolesOf e = ∅ := by
  rw [Values.rolesOf, ExtTreeMap.getElem?_ofList_of_contains_eq_false (by simpa using h),
    Option.getD_none]

theorem Values.mem_rolesOf :
    r ∈ values.rolesOf e ↔ ∃ roles, (e, roles) ∈ values ∧ r ∈ roles := by
  constructor
  · intro hr
    by_cases he : e ∈ values.map Prod.fst
    · obtain ⟨⟨e, roles⟩, hmem, rfl⟩ := mem_map.mp he
      rw [Values.rolesOf_of_mem hnodup hmem] at hr
      exact ⟨roles, hmem, hr⟩
    · rw [Values.rolesOf_of_not_mem he] at hr
      exact absurd hr ExtTreeSet.not_mem_empty
  · rintro ⟨roles, hmem, hr⟩
    rwa [Values.rolesOf_of_mem hnodup hmem]

/-- The pairs that are merged are those `values` asks for. -/
theorem mem_mergedPairs {file live} :
    (r, e) ∈ mergedPairs file live values ↔ r ∈ values.rolesOf e := by
  rw [mergedPairs, mem_filter]
  refine ⟨And.right, fun hr ↦ ⟨?_, hr⟩⟩
  -- The last loop offers every pair that `values` asks for.
  have hpair : (r, e) ∈ valuePairs values :=
    mem_valuePairs.mpr ((Values.mem_rolesOf hnodup).mp hr)
  exact mem_append_right _ hpair

/-- **The merged section realises the values**: every entry holds the roles it was given. -/
theorem rolesOf_mergedSection (file : RoleMap) (live : Section) (e : BindingEntry) :
    (mergedSection (.present file) live values).rolesOf e = values.rolesOf e := by
  refine ExtTreeSet.ext_mem fun r ↦ ?_
  rw [mergedSection, Section.mem_rolesOf_present, exists_mem_foldl_addTo, mem_mergedPairs hnodup]
  refine or_iff_right ?_
  rintro ⟨l, hl, he⟩
  rw [ExtTreeMap.getElem?_map] at hl
  obtain ⟨l', -, rfl⟩ := Option.map_eq_some_iff.mp hl
  exact not_mem_nil he

end Values

/-! ### The merge realises the table -/

variable {st : Stored} {file : Section} {e : BindingEntry}

theorem Stored.mem_entryUniverse :
    e ∈ st.entryUniverse file ↔
      e ∈ file.entries ∨ e ∈ st.live.entries ∨ e ∈ st.base.entries ∨ e ∈ st.conflicts := by
  rw [entryUniverse, mem_foldl_pushNew]
  simp

theorem Stored.nodup_entryUniverse : (st.entryUniverse file).Nodup :=
  nodup_foldl_pushNew file.nodup_entries _

/-- An entry that occurs nowhere is left alone. -/
theorem Stored.decideEntry_of_not_mem (h : e ∉ st.entryUniverse file) :
    st.decideEntry file e = { value := ∅ } := by
  simp only [mem_entryUniverse, not_or] at h
  obtain ⟨hfile, hlive, hbase, hconflict⟩ := h
  have hcontains : st.conflicts.contains e = false := by
    rwa [← Bool.not_eq_true, ExtTreeSet.contains_iff_mem]
  rw [decideEntry, hcontains, Section.rolesOf_eq_empty hfile, Section.rolesOf_eq_empty hlive,
    Section.rolesOf_eq_empty hbase]
  rfl

/-- The values a merge decides. -/
def Stored.values (st : Stored) (file : Section) : Values :=
  (st.entryUniverse file).map fun e ↦ (e, (st.decideEntry file e).value)

theorem Stored.nodup_values : ((st.values file).map Prod.fst).Nodup := by
  have hfst : (st.values file).map Prod.fst = st.entryUniverse file := by
    simp [values, Function.comp_def]
  rw [hfst]
  exact st.nodup_entryUniverse

theorem Stored.rolesOf_values : (st.values file).rolesOf e = (st.decideEntry file e).value := by
  by_cases h : e ∈ st.entryUniverse file
  · exact Values.rolesOf_of_mem st.nodup_values (mem_map.mpr ⟨e, h, rfl⟩)
  · rw [Values.rolesOf_of_not_mem, decideEntry_of_not_mem h]
    simpa [values, Function.comp_def] using h

theorem Stored.live_mergeStored :
    (mergeStored st file).live = mergedSection file st.live (st.values file) := by
  simp [mergeStored, values, Function.comp_def]

theorem Stored.mem_conflicts_mergeStored :
    e ∈ (mergeStored st file).conflicts ↔ (st.decideEntry file e).conflict = true := by
  rw [mergeStored, ExtTreeSet.mem_ofList, contains_iff_mem]
  simp only [mem_map, mem_filter]
  constructor
  · rintro ⟨_, ⟨⟨e, -, rfl⟩, hconflict⟩, rfl⟩
    exact hconflict
  · intro hconflict
    have he : e ∈ st.entryUniverse file := by
      by_contra hnot
      rw [decideEntry_of_not_mem hnot] at hconflict
      cases hconflict
    exact ⟨_, ⟨⟨e, he, rfl⟩, hconflict⟩, rfl⟩

/-- The roles of an entry after a merge with a file that is present. -/
theorem Stored.rolesOf_live_mergeStored {roles} :
    (mergeStored st (.present roles)).live.rolesOf e =
      (st.decideEntry (.present roles) e).value := by
  rw [live_mergeStored, rolesOf_mergedSection nodup_values, rolesOf_values]

/-- The fail-closed table: the roles of an entry after a merge, from those it held. -/
def mergeTable (conflicting : Prop) [Decidable conflicting] (b l f : RoleSet) : RoleSet :=
  if conflicting then if f ≠ b ∨ f = l then f else l
  else if f = b then l
  else if l = b ∨ f = l then f
  else safeRoles f l

theorem value_mergeEntry (conflicting : Bool) (b l f : RoleSet) (e : BindingEntry) :
    (mergeEntry conflicting b l f e).value = mergeTable (conflicting = true) b l f := by
  unfold mergeEntry mergeTable
  cases conflicting with
  | true =>
    rw [if_pos rfl, if_pos rfl]
    split_ifs <;> rfl
  | false =>
    rw [if_neg Bool.false_ne_true, if_neg Bool.false_ne_true]
    by_cases hfb : f = b
    · rw [if_pos hfb, if_pos hfb]
    rw [if_neg hfb, if_neg hfb]
    by_cases hlb : l = b
    · rw [if_pos hlb, if_pos (.inl hlb)]
    rw [if_neg hlb]
    by_cases hfl : f = l
    · rw [if_pos hfl, if_pos (.inr hfl)]
    · rw [if_neg (not_or.mpr ⟨hlb, hfl⟩)]
      dsimp only
      split_ifs <;> rfl

theorem conflict_mergeEntry (conflicting : Bool) (b l f : RoleSet) (e : BindingEntry) :
    (mergeEntry conflicting b l f e).conflict = true ↔
      (conflicting = true ∧ ¬(f ≠ b ∨ f = l)) ∨
      (conflicting = false ∧ f ≠ b ∧ l ≠ b ∧ f ≠ l ∧ safeRoles f l ≠ f) := by
  unfold mergeEntry
  dsimp only
  cases conflicting with
  | true =>
    rw [if_pos rfl]
    split_ifs with h
    · simp [h]
    · simp [h]
  | false =>
    rw [if_neg Bool.false_ne_true]
    split_ifs with hfb hlb hfl hsafe
    · simp [hfb]
    · simp [hlb]
    · simp [hfl]
    · simp [hfb, hlb, hfl, hsafe]
    · simpa using fun _ _ _ ↦ not_not.mp hsafe

/-- **A merge is the table, entry by entry.** With a base and a file that are present, every entry
holds in the merged live bindings the roles of the table; the conflicts are those that were kept and
those whose fail-closed value is not the file's; the base becomes the file; and no entry comes from
nowhere. -/
theorem merge_live_roles (baseRoles fileRoles : RoleMap) (live : Section) (conflicts : EntrySet) :
    let base := Section.present baseRoles
    let file := Section.present fileRoles
    let merged := merge (some ⟨base, live, conflicts⟩) file
    (∀ e, merged.live.rolesOf e =
      mergeTable (e ∈ conflicts) (base.rolesOf e) (live.rolesOf e) (file.rolesOf e)) ∧
    (∀ e, e ∈ merged.conflicts ↔
      (e ∈ conflicts ∧ ¬(file.rolesOf e ≠ base.rolesOf e ∨ file.rolesOf e = live.rolesOf e)) ∨
      (e ∉ conflicts ∧ file.rolesOf e ≠ base.rolesOf e ∧ live.rolesOf e ≠ base.rolesOf e ∧
        file.rolesOf e ≠ live.rolesOf e ∧
        safeRoles (file.rolesOf e) (live.rolesOf e) ≠ file.rolesOf e)) ∧
    merged.base = file ∧
    ∀ e ∈ merged.live.entries,
      e ∈ file.entries ∨ e ∈ live.entries ∨ e ∈ base.entries ∨ e ∈ conflicts := by
  intro base file merged
  have hmerged : merged = mergeStored ⟨base, live, conflicts⟩ file := rfl
  have hroles : ∀ e, merged.live.rolesOf e =
      (Stored.decideEntry ⟨base, live, conflicts⟩ file e).value :=
    fun e ↦ Stored.rolesOf_live_mergeStored
  refine ⟨fun e ↦ ?_, fun e ↦ ?_, rfl, fun e he ↦ ?_⟩
  · rw [hroles, Stored.decideEntry, value_mergeEntry]
    simp [mergeTable]
  · rw [hmerged, Stored.mem_conflicts_mergeStored, Stored.decideEntry, conflict_mergeEntry]
    simp [← Bool.not_eq_true]
  · by_contra hnot
    obtain ⟨r, hr⟩ := Section.mem_entries.mp he
    rw [hroles, Stored.decideEntry_of_not_mem fun h ↦ hnot (Stored.mem_entryUniverse.mp h)] at hr
    exact absurd hr ExtTreeSet.not_mem_empty

end Maknae.Config
