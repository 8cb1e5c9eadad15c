import Maknae.Config.BindingsSync
import Maknae.Config.ValueOrder

/-!
# The canonical texts of the sync state

The store keeps the sections of the sync state and its conflicts as canonical JSON, and the guard of
a live edit works on what it reads back from the texts. This file says that nothing is lost on the
way: a text determines its section and its conflicts, since the values they are written as have
their keys in order (`Value.Ordered.eq_of_canonicalJson`).

The reader of JSON is not part of the source. What is asked of it (`ReadsBack`) is that it reads the
texts of sections and of entry lists as what they were written from; `readsBack_canonicalReader`
says that this can be asked. Then every text the daemon writes is read back, provided its entries
are ones the reader of bindings takes.
-/

namespace Maknae.Config

open Except List Option Std

/-! ### Values -/

/-- The value of a list of entries. -/
def entriesValue (l : List BindingEntry) : Value := .seq (l.map entryValue)

/-- The value of the lists of a section. -/
def rolesValue (m : RoleMap) : Value := .map (m.toList.map fun p ↦ (p.1, entriesValue p.2))

theorem ordered_entryValue (e : BindingEntry) : (entryValue e).Ordered := by
  cases e with
  | name n => exact .str n
  | uid u =>
    have hlt := u.toNat_lt
    exact .map (pairwise_singleton _ _) (by simpa using .int (by omega))

theorem ordered_entriesValue (l : List BindingEntry) : (entriesValue l).Ordered :=
  .seq (forall_mem_map.mpr fun e _ ↦ ordered_entryValue e)

variable {α : Type} {value : α → Value} {m : RoleMap}

theorem ordered_treeValue (h : ∀ a, (value a).Ordered) (m : ExtTreeMap String α compare) :
    (Value.map (m.toList.map fun p ↦ (p.1, value p.2))).Ordered := by
  have hordered : m.toList.Pairwise fun a b ↦ a.1 < b.1 :=
    ExtTreeMap.ordered_keys_toList.imp fun h ↦ compare_lt_iff_lt.mp h
  exact .map (pairwise_map.mpr hordered) (forall_mem_map.mpr fun p _ ↦ h p.2)

theorem treeValue_injective (h : Function.Injective value) :
    Function.Injective fun m : ExtTreeMap String α compare ↦
      Value.map (m.toList.map fun p ↦ (p.1, value p.2)) := by
  intro m m' heq
  have hpair : Function.Injective fun p : String × α ↦ (p.1, value p.2) := fun p q hpq ↦
    Prod.ext (Prod.mk.inj hpq).1 (h (Prod.mk.inj hpq).2)
  exact ExtTreeMap.toList_inj.mp (hpair.list_map (Value.map.inj heq))

theorem ordered_rolesValue (m : RoleMap) : (rolesValue m).Ordered :=
  ordered_treeValue ordered_entriesValue m

/-! ### Reading back -/

/-- The reader of JSON reads the texts of sections and of entry lists as what they were written
from. -/
structure ReadsBack (parseJson : String → Option Value) : Prop where
  entries (l : List BindingEntry) :
    parseJson (canonicalJson (entriesValue l)) = some (entriesValue l)
  roles (m : RoleMap) : parseJson (canonicalJson (rolesValue m)) = some (rolesValue m)

/-- **There is such a reader.** -/
theorem readsBack_canonicalReader : ReadsBack canonicalReader where
  entries l := canonicalReader_eq_some.mpr ⟨ordered_entriesValue l, rfl⟩
  roles m := canonicalReader_eq_some.mpr ⟨ordered_rolesValue m, rfl⟩

theorem entry_entryValue {e} (h : e.Grammatical) : entry (entryValue e) = .ok e := by
  cases e with
  | name n =>
    have hname : nameFault n = none := h
    simp only [entryValue, entry, hname]
  | uid u =>
    have hmax : u.toNat ≠ 4294967295 := fun heq ↦ h (UInt32.toNat_inj.mp heq)
    have hlt := u.toNat_lt
    have hrange : (0 : ℤ) ≤ u.toNat ∧ (u.toNat : ℤ) < 4294967295 := by omega
    rw [entryValue, entry, if_pos rfl, if_pos hrange, Int.toNat_natCast, UInt32.ofNat_toNat]

theorem mapM_entry {l : List BindingEntry} (h : ∀ e ∈ l, e.Grammatical) :
    (l.map entryValue).mapM entry = .ok l := by
  rw [mapM_map]
  exact (mapM_eq_ok_map fun e he ↦ entry_entryValue (h e he)).trans
    (congrArg _ (map_id l))

theorem sectionRoles_rolesValue (h : m.Grammatical) :
    sectionRoles (rolesValue m) = .ok m := by
  have hfold : ∀ (l : List (String × List BindingEntry)) (acc : RoleMap),
      (∀ p ∈ l, ∀ e ∈ p.2, e.Grammatical) →
      (l.map fun p ↦ (p.1, entriesValue p.2)).foldlM readRole acc = .ok (acc.insertMany l) := by
    intro l
    induction l with
    | nil => intro acc _; rfl
    | cons p l ih =>
      intro acc hl
      obtain ⟨hp, hrest⟩ := forall_mem_cons.mp hl
      have hstep : readRole acc (p.1, entriesValue p.2) = .ok (acc.insert p.1 p.2) := by
        rw [entriesValue, readRole, mapM_entry hp]
        rfl
      rw [map_cons, foldlM_cons, hstep, ok_bind, ih _ hrest, ExtTreeMap.insertMany_cons]
  have hread := hfold m.toList ∅ fun p hp ↦
    h p.1 p.2 (ExtTreeMap.mem_toList_iff_getElem?_eq_some.mp hp)
  rw [← ExtTreeMap.ofList_eq_insertMany_empty, ofList_toList] at hread
  exact hread

section Read

variable {parseJson : String → Option Value}

theorem valueFromCanonicalJson_of_eq {v} (h : parseJson (canonicalJson v) = some v) :
    valueFromCanonicalJson parseJson (canonicalJson v) = some v := by
  rw [valueFromCanonicalJson, h]
  simp

/-- The entries of a section are all of the grammar. -/
theorem grammatical_iff_entries {m} :
    m.Grammatical ↔ ∀ e ∈ (Section.present m).entries, e.Grammatical := by
  constructor
  · intro h e he
    obtain ⟨role, hrole⟩ := Section.mem_entries.mp he
    obtain ⟨l, hl, hel⟩ := Section.mem_rolesOf_present.mp hrole
    exact h role l hl e hel
  · intro h role l hl e he
    exact h e (Section.mem_entries.mpr ⟨role, Section.mem_rolesOf_present.mpr ⟨l, hl, he⟩⟩)

variable {s : Section} {t : String} {c : EntrySet}

/-- **A section that keeps the rules is read back from its text.** -/
theorem fromCanonical_canonical (hreader : ReadsBack parseJson)
    (hrules : checkRoles s.roles? = .ok ()) (hentries : ∀ e ∈ s.entries, e.Grammatical) :
    Section.fromCanonical parseJson s.canonical = some s := by
  cases s with
  | missing | absent => rfl
  | present m =>
    have hrules : checkRoles (some m) = .ok () := hrules
    have hvalue := valueFromCanonicalJson_of_eq (hreader.roles m)
    show (do
      let v ← valueFromCanonicalJson parseJson (canonicalJson (rolesValue m))
      let roles ← (sectionRoles v).toOption
      let _ ← (checkRoles (some roles)).toOption
      return Section.present roles) = _
    rw [hvalue, bind_eq_bind, bind_some,
      sectionRoles_rolesValue (grammatical_iff_entries.mpr hentries)]
    show (do
      let _ ← (checkRoles (some m)).toOption
      return Section.present m) = _
    rw [hrules]
    rfl

/-- A value that was read as an entry is that of an entry of the grammar. -/
theorem grammatical_of_entry_entryValue {e e'} (h : entry (entryValue e) = .ok e') :
    e.Grammatical := by
  cases e with
  | name n =>
    show nameFault n = none
    rw [entryValue, entry] at h
    split at h
    · assumption
    all_goals cases h
  | uid u =>
    rintro rfl
    rw [entryValue, entry, if_pos rfl, if_neg (by decide)] at h
    cases h

/-- **A section whose text can be read** has entries of the grammar only. -/
theorem grammatical_of_fromCanonical_isSome (hreader : ReadsBack parseJson)
    (h : (Section.fromCanonical parseJson s.canonical).isSome) :
    ∀ e ∈ s.entries, e.Grammatical := by
  cases s with
  | missing | absent => exact nofun
  | present m =>
    obtain ⟨s, hs⟩ := isSome_iff_exists.mp h
    obtain ⟨v, hv, hs⟩ := bind_eq_some_iff.mp hs
    obtain ⟨roles, hroles, -⟩ := bind_eq_some_iff.mp hs
    obtain rfl : rolesValue m = v :=
      some.inj ((valueFromCanonicalJson_of_eq (hreader.roles m)).symm.trans hv)
    refine grammatical_iff_entries.mp fun role l hl e he ↦ ?_
    -- the list of the role was read, and in it the entry
    have hmem : (role, entriesValue l) ∈ m.toList.map fun p ↦ (p.1, entriesValue p.2) :=
      mem_map.mpr ⟨(role, l), ExtTreeMap.mem_toList_iff_getElem?_eq_some.mpr hl, rfl⟩
    obtain ⟨acc, acc', hstep⟩ := exists_of_mem_foldlM (eq_ok_of_toOption hroles) hmem
    obtain ⟨entries, hentries, -⟩ := bind_eq_ok.mp hstep
    obtain ⟨e', he'⟩ := exists_mapM_eq_ok.mp ⟨entries, hentries⟩ (entryValue e)
      (mem_map_of_mem he)
    exact grammatical_of_entry_entryValue he'

/-- A section that was read keeps the rules, and its entries are of the grammar. -/
theorem of_fromCanonical (h : Section.fromCanonical parseJson t = some s) :
    checkRoles s.roles? = .ok () ∧ ∀ e ∈ s.entries, e.Grammatical := by
  unfold Section.fromCanonical at h
  split_ifs at h with hmissing habsent
  · cases h
    exact ⟨rfl, nofun⟩
  · cases h
    exact ⟨rfl, nofun⟩
  · obtain ⟨v, -, h⟩ := bind_eq_some_iff.mp h
    obtain ⟨roles, hroles, h⟩ := bind_eq_some_iff.mp h
    obtain ⟨u, hrules, h⟩ := bind_eq_some_iff.mp h
    cases h
    exact ⟨eq_ok_of_toOption hrules,
      grammatical_iff_entries.mp (grammatical_of_sectionRoles (eq_ok_of_toOption hroles))⟩

/-- **Conflicts are read back from their text.** -/
theorem conflictsFromCanonical_canonical (hreader : ReadsBack parseJson)
    (hentries : ∀ e ∈ c, e.Grammatical) :
    conflictsFromCanonical parseJson (conflictsCanonical c) = some c := by
  have hvalue : valueFromCanonicalJson parseJson (conflictsCanonical c) =
      some (.seq (c.toList.map entryValue)) :=
    valueFromCanonicalJson_of_eq (hreader.entries c.toList)
  have hmap : (c.toList.map entryValue).mapM entry = .ok c.toList :=
    mapM_entry fun e he ↦ hentries e (ExtTreeSet.mem_toList.mp he)
  have hset : ExtTreeSet.ofList c.toList compare = c :=
    ExtTreeSet.ext_mem fun e ↦ by
      rw [ExtTreeSet.mem_ofList, contains_iff_mem, ExtTreeSet.mem_toList]
  rw [conflictsFromCanonical, hvalue]
  show (do
    let entries ← ((c.toList.map entryValue).mapM entry).toOption
    if conflictsCanonical (.ofList entries compare) = conflictsCanonical c then
      return ExtTreeSet.ofList entries compare else none) = _
  rw [hmap]
  show (if conflictsCanonical (.ofList c.toList compare) = conflictsCanonical c then
    some (ExtTreeSet.ofList c.toList compare) else none) = _
  rw [hset, if_pos rfl]

theorem of_conflictsFromCanonical (h : conflictsFromCanonical parseJson t = some c) :
    conflictsCanonical c = t ∧ ∀ e ∈ c, e.Grammatical := by
  unfold conflictsFromCanonical at h
  split at h
  · obtain ⟨entries, hentries, h⟩ := bind_eq_some_iff.mp h
    dsimp only at h
    split_ifs at h with htext
    cases h
    refine ⟨htext, fun e he ↦ ?_⟩
    rw [ExtTreeSet.mem_ofList, contains_iff_mem] at he
    obtain ⟨v, -, hv⟩ := exists_of_mem_mapM (eq_ok_of_toOption hentries) he
    exact grammatical_of_entry hv
  · cases h

end Read

end Maknae.Config
