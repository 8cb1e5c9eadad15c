import Maknae.Config.LiveEdit

/-!
# The state of the sync over whole runs

A run starts with a first merge and goes on with merges and successful live edits. `SyncInv` is what
every state of a run satisfies, whatever the files and the edits are:

* `base` and `live` are both present or both not;
* a conflict is an entry that holds different roles in `base` and `live`;
* in every role, `live` lists what is left of `base` first, in the order of `base`.

`RuleInv` adds that `live` keeps the rules of a section, or nothing was merged into it yet. The
rules forbid two entries of one list that print alike, and the grammar of names is what keeps a name
from printing like a uid. The reader of the file checks it, an edit does not: a run that contains a
name which prints like a uid, and then merges a file with that uid, leaves live bindings that break
the rules (`exists_run_breaks_rules`). So this invariant is one of the runs whose edits name what
the reader would accept.
-/

namespace Maknae.Config

open List Section Std.ExtTreeMap

/-! ### The lists of a merged section -/

theorem valuesAt_rolePairs (m : RoleMap) (r : String) :
    valuesAt (rolePairs m) r = (Section.present m).listAt r := by
  have hflat : valuesAt (rolePairs m) r = (m.toList.filter fun p ↦ p.1 == r).flatMap Prod.snd := by
    unfold rolePairs
    induction m.toList with
    | nil => rfl
    | cons p l ih =>
      rw [flatMap_cons, valuesAt_append, ih]
      by_cases hr : p.1 = r
      · simp [valuesAt, hr, filter_map]
      · simp [valuesAt, hr]
  rw [hflat, Section.listAt, Section.roles?, Option.getD_some]
  cases hm : m[r]? with
  | none =>
    have hnil : (m.toList.filter fun p ↦ p.1 == r) = [] := by
      refine filter_eq_nil_iff.mpr fun p hmem heq ↦ ?_
      obtain rfl : p.1 = r := by simpa using heq
      rw [mem_toList_iff_getElem?_eq_some, hm] at hmem
      cases hmem
    rw [hnil]
    rfl
  | some l =>
    have hdistinct : m.toList.Pairwise fun p q ↦ p.1 ≠ q.1 :=
      distinct_keys_toList.imp fun hne heq ↦ hne (by simp [heq])
    have hmem : (r, l) ∈ m.toList := mem_toList_iff_getElem?_eq_some.mpr hm
    rw [filter_key_eq_singleton hdistinct hmem]
    simp

section MergedSection

variable {file : RoleMap} {live : Section} {values : Values}

theorem listAt_mergedSection (r : String) :
    (mergedSection (.present file) live values).listAt r =
      firsts (valuesAt (mergedPairs file live values) r) := by
  refine getD_foldl_addTo ?_
  rw [Std.ExtTreeMap.getElem?_map]
  cases file[r]? with
  | none | some l => rfl

/-- Two sections, the second of which lists in every role what it keeps of the first one before all
else, in order. Repeats are not counted. -/
def KeepsOrder (base live : Section) : Prop :=
  ∀ role, ∃ rest, firsts (live.listAt role) =
    firsts ((base.listAt role).filter fun e ↦ e ∈ live.listAt role) ++ rest

theorem keepsOrder_refl (s : Section) : KeepsOrder s s := fun role ↦
  ⟨[], by rw [append_nil, filter_eq_self.mpr fun e he ↦ by simpa using he]⟩

theorem keepsOrder_mergedSection (hnodup : (values.map Prod.fst).Nodup) :
    KeepsOrder (.present file) (mergedSection (.present file) live values) := by
  intro role
  have hsurvives : ((Section.present file).listAt role).filter
      (fun e ↦ e ∈ (mergedSection (.present file) live values).listAt role) =
      ((Section.present file).listAt role).filter fun e ↦ (values.rolesOf e).contains role := by
    refine filter_congr fun e _ ↦ ?_
    rw [Bool.eq_iff_iff, decide_eq_true_iff, mem_listAt, rolesOf_mergedSection hnodup,
      Std.ExtTreeSet.contains_iff_mem]
  rw [hsurvives, listAt_mergedSection, firsts_of_nodup (nodup_firsts _), mergedPairs,
    valuesAt_filter, valuesAt_append, valuesAt_append, valuesAt_rolePairs, append_assoc,
    filter_append]
  exact exists_firsts_append _ _

theorem nodup_listAt_mergedSection (role : String) :
    ((mergedSection (.present file) live values).listAt role).Nodup := by
  rw [listAt_mergedSection]
  exact nodup_firsts _

/-! ### The rules of a merged section -/

/-- The entry may stand under the role. -/
def RoleOk (e : BindingEntry) (role : String) : Prop :=
  role ∈ bindingRoles ∧ ∀ u, e = .uid u → role = adversaryRole

/-- In a section that keeps the rules every entry stands where it may. -/
theorem roleOk_of_checkRoles {s : Section} (h : checkRoles s.roles? = .ok ()) {e : BindingEntry}
    {role : String} (hrole : role ∈ s.rolesOf e) : RoleOk e role := by
  cases s with
  | missing | absent => exact absurd hrole Std.ExtTreeSet.not_mem_empty
  | present m =>
    obtain ⟨l, hl, he⟩ := mem_rolesOf_present.mp hrole
    have hlist := checkRoles_eq_ok.mp h role l hl
    refine ⟨hlist.role_mem, ?_⟩
    rintro u rfl
    exact hlist.of_uid u he

/-- A merged section keeps the rules when its values do. -/
theorem checkRoles_mergedSection (hnodup : (values.map Prod.fst).Nodup)
    (hfile : ∀ role, role ∈ file → role ∈ bindingRoles)
    (hvalues : ∀ e role, role ∈ values.rolesOf e → RoleOk e role ∧ e.NameOk) :
    checkRoles (mergedSection (.present file) live values).roles? = .ok () := by
  refine checkRoles_eq_ok.mpr fun role entries hentries ↦ ?_
  have hlist : (mergedSection (.present file) live values).listAt role = entries := by
    show ((Std.ExtTreeMap.get? _ role).getD [] : List BindingEntry) = _
    exact congrArg (Option.getD · []) hentries
  have hmem : ∀ e ∈ entries, RoleOk e role ∧ e.NameOk := by
    intro e he
    rw [← hlist, mem_listAt, rolesOf_mergedSection hnodup] at he
    exact hvalues e role he
  refine ⟨?_, ?_, ?_⟩
  · -- The role is one of the file, or some entry was added to it.
    rw [getElem?_foldl_addTo] at hentries
    split_ifs at hentries with hnil
    · rw [Std.ExtTreeMap.getElem?_map] at hentries
      obtain ⟨l, hl, -⟩ := Option.map_eq_some_iff.mp hentries
      exact hfile role (mem_iff_isSome_getElem?.mpr (by rw [hl]; rfl))
    · obtain ⟨e, he⟩ := exists_mem_of_ne_nil _ hnil
      exact (hvalues e role ((mem_mergedPairs hnodup).mp (mem_valuesAt.mp he))).1.1
  · refine List.Nodup.map_on (fun a ha b hb heq ↦ ?_) (hlist ▸ nodup_listAt_mergedSection role)
    exact BindingEntry.render_injOn (hmem a ha).2 (hmem b hb).2 heq
  · intro u hu
    exact (hmem _ hu).1.2 u rfl

end MergedSection

/-! ### The invariant -/

/-- What every state of a run satisfies. -/
structure SyncInv (st : Stored) : Prop where
  present_eq : st.base.isPresent = st.live.isPresent
  nodup : st.live = st.base ∨ ∀ role, (st.live.listAt role).Nodup
  conflict : ∀ e ∈ st.conflicts, st.base.rolesOf e ≠ st.live.rolesOf e
  order : KeepsOrder st.base st.live

/-- What a state also satisfies where every name is one of the grammar. -/
structure RuleInv (st : Stored) : Prop extends SyncInv st where
  rules : checkRoles st.live.roles? = .ok () ∨ st.live = st.base
  names : ∀ e ∈ st.live.entries, e.NameOk

/-- The state a merge leaves. -/
def Merged.stored (m : Merged) : Stored := ⟨m.base, m.live, m.conflicts⟩

variable {e : BindingEntry} {b : Bindings}

theorem grammatical_of_ofBindings (h : e ∈ (Section.ofBindings b).entries) : e.Grammatical := by
  obtain ⟨role, hrole⟩ := mem_entries.mp h
  unfold Section.ofBindings at hrole
  split at hrole
  · exact absurd hrole Std.ExtTreeSet.not_mem_empty
  · exact absurd hrole Std.ExtTreeSet.not_mem_empty
  · next m hroles _ =>
    obtain ⟨l, hl, he⟩ := mem_rolesOf_present.mp hrole
    exact b.grammatical m hroles role l hl e he

theorem syncInv_start (file : Section) : SyncInv (merge none file).stored where
  present_eq := rfl
  nodup := .inl rfl
  conflict _ he := absurd he Std.ExtTreeSet.not_mem_empty
  order := keepsOrder_refl _

/-- A role an entry gets by a merge is one it had in the file or in the live bindings. -/
theorem mem_of_mem_mergeTable {conflicting : Prop} [Decidable conflicting] {b l f}
    {role} (h : role ∈ mergeTable conflicting b l f) : role ∈ f ∨ role ∈ l := by
  unfold mergeTable at h
  split_ifs at h with _ _ _ _
  · exact .inl h
  · exact .inr h
  · exact .inr h
  · exact .inl h
  · unfold safeRoles at h
    split_ifs at h with hcontains
    · have hrole : adversaryRole = role :=
        Std.LawfulEqOrd.eq_of_compare ((Std.ExtTreeSet.mem_insert.mp h).resolve_right
          Std.ExtTreeSet.not_mem_empty)
      rw [Bool.or_eq_true] at hcontains
      rwa [← hrole]
    · exact absurd h Std.ExtTreeSet.not_mem_empty

theorem mergeTable_of_live_eq {b f} : mergeTable False b b f = f := by
  rw [mergeTable, if_neg not_false]
  by_cases hfb : f = b
  · rw [if_pos hfb, hfb]
  · rw [if_neg hfb, if_pos (.inl rfl)]

theorem value_decideEntry (st : Stored) (file : Section) (e : BindingEntry) :
    (st.decideEntry file e).value =
      mergeTable (e ∈ st.conflicts) (st.base.rolesOf e) (st.live.rolesOf e) (file.rolesOf e) := by
  rw [Stored.decideEntry, value_mergeEntry]
  simp [mergeTable]

section Merge

variable {st : Stored} {file : Section}

/-- A role that a merge decides on is one of the rules. -/
theorem RuleInv.roleOk_decideEntry (h : RuleInv st) (hfile : checkRoles file.roles? = .ok ())
    {e : BindingEntry} {role : String} (hrole : role ∈ (st.decideEntry file e).value) :
    RoleOk e role := by
  rw [value_decideEntry] at hrole
  rcases h.rules with hlive | hsame
  · rcases mem_of_mem_mergeTable hrole with hf | hl
    · exact roleOk_of_checkRoles hfile hf
    · exact roleOk_of_checkRoles hlive hl
  · -- Before the first change the file decides everything.
    have hconflict : ¬e ∈ st.conflicts := fun he ↦ h.conflict e he (by rw [hsame])
    simp only [hconflict, hsame, mergeTable_of_live_eq] at hrole
    exact roleOk_of_checkRoles hfile hrole

/-- A conflict that a merge leaves is one. -/
theorem value_ne_of_conflict {b l f conflicting e}
    (h : (mergeEntry conflicting b l f e).conflict = true) :
    f ≠ (mergeEntry conflicting b l f e).value := by
  rw [value_mergeEntry]
  unfold mergeTable
  rcases (conflict_mergeEntry conflicting b l f e).mp h with
    ⟨hc, hkept⟩ | ⟨hc, hfb, hlb, hfl, hsafe⟩
  · rw [if_pos hc, if_neg hkept]
    exact fun heq ↦ hkept (.inr heq)
  · rw [if_neg (by simp [hc]), if_neg hfb, if_neg (not_or.mpr ⟨hlb, hfl⟩)]
    exact hsafe.symm

/-- A merge with a file that is not there, onto a state that is not either. -/
theorem SyncInv.mergeStored_of_not_present (h : SyncInv st) (hbase : st.base.isPresent = false)
    (hfile : file.isPresent = false) : SyncInv (mergeStored st file).stored := by
  have hroles : ∀ s : Section, s.isPresent = false → ∀ e, s.rolesOf e = ∅ := by
    rintro (_ | _ | m) hs e
    · rfl
    · rfl
    · cases hs
  have hlive : (mergeStored st file).stored.live = file := by
    cases file with
    | missing | absent => rfl
    | present m => cases hfile
  have hempty : ∀ e, st.base.rolesOf e = st.live.rolesOf e := fun e ↦ by
    rw [hroles _ hbase, hroles _ (h.present_eq ▸ hbase)]
  refine ⟨?_, .inl hlive, fun e he ↦ ?_, ?_⟩
  · rw [hlive]
    rfl
  · have hdecide := Stored.mem_conflicts_mergeStored.mp he
    rcases (conflict_mergeEntry _ _ _ _ e).mp hdecide with ⟨hc, -⟩ | ⟨-, hfb, -⟩
    · exact absurd (hempty e) (h.conflict e (Std.ExtTreeSet.contains_iff_mem.mp hc))
    · exact absurd (by rw [hroles _ hfile, hroles _ hbase]) hfb
  · rw [hlive]
    exact keepsOrder_refl file

/-- A merge with a section establishes the invariant, whatever was stored. -/
theorem syncInv_mergeStored (st : Stored) (roles : RoleMap) :
    SyncInv (mergeStored st (.present roles)).stored := by
  have hlive : (mergeStored st (.present roles)).stored.live =
      mergedSection (.present roles) st.live (st.values (.present roles)) := by
    show (mergeStored st (.present roles)).live = _
    rw [Stored.live_mergeStored]
  refine ⟨?_, .inr fun role ↦ ?_, fun e he ↦ ?_, ?_⟩
  · rw [hlive]
    rfl
  · rw [hlive]
    exact nodup_listAt_mergedSection role
  · show (Section.present roles).rolesOf e ≠ (mergeStored st (.present roles)).live.rolesOf e
    rw [Stored.rolesOf_live_mergeStored]
    exact value_ne_of_conflict (Stored.mem_conflicts_mergeStored.mp he)
  · rw [hlive]
    exact keepsOrder_mergedSection Stored.nodup_values

/-- **A merge keeps the invariant.** -/
theorem SyncInv.merge (h : SyncInv st) (file : Section) :
    SyncInv (merge (some st) file).stored := by
  unfold Config.merge
  dsimp only
  split_ifs with hlost
  · exact h
  · cases hfile : file.isPresent with
    | true =>
      cases file with
      | missing | absent => cases hfile
      | present roles => exact syncInv_mergeStored st roles
    | false =>
      have hbase : st.base.isPresent = false := by simpa [lostSection, hfile] using hlost
      exact h.mergeStored_of_not_present hbase hfile

/-- **A merge of a file of the rules keeps the rules.** -/
theorem RuleInv.merge (h : RuleInv st) (hrules : checkRoles file.roles? = .ok ())
    (hnames : ∀ e ∈ file.entries, e.NameOk) : RuleInv (merge (some st) file).stored := by
  have hname : ∀ e role, role ∈ (st.decideEntry file e).value → e.NameOk := by
    intro e role hrole
    rw [value_decideEntry] at hrole
    rcases mem_of_mem_mergeTable hrole with hf | hl
    · exact hnames e (mem_entries.mpr ⟨role, hf⟩)
    · exact h.names e (mem_entries.mpr ⟨role, hl⟩)
  have hsync := h.toSyncInv.merge file
  unfold Config.merge at hsync ⊢
  dsimp only at hsync ⊢
  split_ifs at hsync ⊢ with hlost
  · exact h
  cases file with
  | missing | absent => exact { hsync with rules := .inr rfl, names := nofun }
  | present roles =>
    refine { hsync with rules := .inl ?_, names := fun e he ↦ ?_ }
    · show checkRoles (mergeStored st (.present roles)).live.roles? = _
      rw [Stored.live_mergeStored]
      refine checkRoles_mergedSection Stored.nodup_values (fun role hrole ↦ ?_)
        fun e role hrole ↦ ?_
      · obtain ⟨l, hl⟩ := Option.isSome_iff_exists.mp (mem_iff_isSome_getElem?.mp hrole)
        exact (checkRoles_eq_ok.mp hrules role l hl).role_mem
      · rw [Stored.rolesOf_values] at hrole
        exact ⟨h.roleOk_decideEntry hrules hrole, hname e role hrole⟩
    · obtain ⟨role, hrole⟩ := mem_entries.mp he
      have hrole : role ∈ (mergeStored st (.present roles)).live.rolesOf e := hrole
      rw [Stored.rolesOf_live_mergeStored] at hrole
      exact hname e role hrole

end Merge

section Edit

variable {st : Stored} {edit : LiveEdit} {edited : Edited}

section

variable (happly : Config.applyEdit st.base st.live st.conflicts edit = .ok (some edited))

include happly

/-- **A successful edit keeps the invariant.** -/
theorem SyncInv.applyEdit (h : SyncInv st) :
    SyncInv ⟨st.base, edited.live, edited.conflicts⟩ := by
  obtain ⟨changed, hsection, -⟩ := applyEdit_eq_ok happly
  obtain ⟨hbase, -, -, hnext, -⟩ := editSection_eq_ok hsection
  obtain ⟨roles, hroles⟩ : ∃ roles, st.base = .present roles := by
    cases hst : st.base with
    | missing | absent => rw [hst] at hbase; cases hbase
    | present roles => exact ⟨roles, rfl⟩
  rw [hroles] at hnext
  refine ⟨?_, .inr fun role ↦ ?_, fun e he ↦ ?_, ?_⟩
  · show st.base.isPresent = edited.live.isPresent
    rw [hnext, hroles]
    rfl
  · show (edited.live.listAt role).Nodup
    rw [hnext]
    exact nodup_listAt_mergedSection role
  · -- A conflict that is left is about an entry the edit did not change.
    obtain ⟨hconflict, hsame⟩ := (mem_conflicts_of_applyEdit happly).mp he
    show st.base.rolesOf e ≠ edited.live.rolesOf e
    rw [hsame]
    exact h.conflict e hconflict
  · show KeepsOrder st.base edited.live
    rw [hnext, hroles]
    exact keepsOrder_mergedSection nodup_editValues

/-- An edit checks the rules itself; what is left to ask is the grammar of the names. -/
theorem RuleInv.applyEdit (h : RuleInv st) (hnames : ∀ e ∈ edited.live.entries, e.NameOk) :
    RuleInv ⟨st.base, edited.live, edited.conflicts⟩ := by
  obtain ⟨changed, hsection, -⟩ := applyEdit_eq_ok happly
  obtain ⟨-, -, hrules, -⟩ := editSection_eq_ok hsection
  exact { h.toSyncInv.applyEdit happly with rules := .inl hrules, names := hnames }

/-- The names of an edited section, if the edit checks the name it adds. -/
theorem RuleInv.nameOk_applyEdit (h : RuleInv st) (hedit : edit.NameOk) :
    ∀ e ∈ edited.live.entries, e.NameOk := by
  obtain ⟨changed, hsection, -⟩ := applyEdit_eq_ok happly
  intro e he
  obtain ⟨role, hrole⟩ := mem_entries.mp he
  rw [rolesOf_of_editSection hsection] at hrole
  split_ifs at hrole with htarget
  · rcases LiveEdit.nameOk_of_mem_newRoles hedit hrole htarget with hold | hname
    · exact h.names e (mem_entries.mpr ⟨role, hold⟩)
    · exact hname
  · exact h.names e (mem_entries.mpr ⟨role, hrole⟩)

end

end Edit

/-! ### Runs -/

/-- The states that merges and successful edits lead to. -/
inductive SyncReachable : Stored → Prop
  | start (file : Section) : SyncReachable (merge none file).stored
  | merge {st : Stored} (file : Section) (hst : SyncReachable st) :
      SyncReachable (merge (some st) file).stored
  | edit {st : Stored} (edit : LiveEdit) (hst : SyncReachable st) {edited : Edited}
      (happly : applyEdit st.base st.live st.conflicts edit = .ok (some edited)) :
      SyncReachable ⟨st.base, edited.live, edited.conflicts⟩

/-- The states of a run over files that were read and, after the first, keep the rules. An edit is
committed if `commits` admits it and the state it leaves. -/
inductive SyncRun (commits : LiveEdit → Stored → Prop) : Stored → Prop
  | start (b : Bindings) : SyncRun commits (merge none (.ofBindings b)).stored
  | merge {st : Stored} (b : Bindings) (hst : SyncRun commits st)
      (hrules : checkRoles b.roles = .ok ()) :
      SyncRun commits (merge (some st) (.ofBindings b)).stored
  | edit {st : Stored} (edit : LiveEdit) (hst : SyncRun commits st) {edited : Edited}
      (happly : applyEdit st.base st.live st.conflicts edit = .ok (some edited))
      (hcommits : commits edit ⟨st.base, edited.live, edited.conflicts⟩) :
      SyncRun commits ⟨st.base, edited.live, edited.conflicts⟩

/-- The rules of a load are those of its section. -/
theorem checkRoles_ofBindings (h : checkRoles b.roles = .ok ()) :
    checkRoles (Section.ofBindings b).roles? = .ok () := by
  unfold Section.ofBindings
  split
  · rfl
  · rfl
  · next m hroles _ => rwa [hroles] at h

theorem syncInv_of_reachable {st} (h : SyncReachable st) : SyncInv st := by
  induction h with
  | start file => exact syncInv_start file
  | merge file _ ih => exact ih.merge file
  | edit edit _ happly ih => exact ih.applyEdit happly

/-- **The rules hold in every run whose edits leave names of the grammar.** -/
theorem ruleInv_of_run {commits : LiveEdit → Stored → Prop} {st} (h : SyncRun commits st)
    (hnames : ∀ {st edit edited}, RuleInv st →
      applyEdit st.base st.live st.conflicts edit = .ok (some edited) →
      commits edit ⟨st.base, edited.live, edited.conflicts⟩ →
      ∀ e ∈ edited.live.entries, e.NameOk) : RuleInv st := by
  induction h with
  | start b =>
    exact { syncInv_start _ with
      rules := .inr rfl
      names := fun _ he ↦ (grammatical_of_ofBindings he).nameOk }
  | merge b _ hrules ih =>
    exact ih.merge (checkRoles_ofBindings hrules) fun e he ↦ (grammatical_of_ofBindings he).nameOk
  | edit edit _ happly hcommits ih => exact ih.applyEdit happly (hnames ih happly hcommits)

/-- The entries that hold different roles in the two sections, each once. -/
def unsyncedEntries (base live : Section) : List BindingEntry :=
  (firsts (base.entries ++ live.entries)).filter fun e ↦ base.rolesOf e ≠ live.rolesOf e

def unsynced (base live : Section) : ℕ := (unsyncedEntries base live).length

theorem mem_unsyncedEntries {base live} :
    e ∈ unsyncedEntries base live ↔ base.rolesOf e ≠ live.rolesOf e := by
  rw [unsyncedEntries, mem_filter, decide_eq_true_iff]
  refine and_iff_right_of_imp fun hne ↦ ?_
  by_contra hnot
  rw [firsts, mem_foldl_pushNew, mem_append, not_or, not_or] at hnot
  exact hne (by rw [rolesOf_eq_empty hnot.2.1, rolesOf_eq_empty hnot.2.2])

/-- In a section that keeps the rules no list has repeats. -/
theorem nodup_listAt_of_checkRoles {s : Section} (h : checkRoles s.roles? = .ok ())
    (role : String) : (s.listAt role).Nodup := by
  cases s with
  | missing | absent => simp [Section.listAt, Section.roles?]
  | present m =>
    rw [Section.listAt, Section.roles?, Option.getD_some]
    cases hm : m[role]? with
    | none => exact nodup_nil
    | some l => exact (checkRoles_eq_ok.mp h role l hm).nodup.of_map

/-- **The state of the sync in every run.** The base and the live bindings are both present or
neither is; every conflict is an unsynced entry; and in every role the live bindings list what is
left of the base first, in the order of the base. If the edits name what the reader of the file
would accept, the live bindings keep the rules whenever the base does. -/
theorem sync_invariant :
    (∀ st, SyncReachable st → st.base.isPresent = st.live.isPresent ∧
      (∀ e ∈ st.conflicts, st.base.rolesOf e ≠ st.live.rolesOf e ∧
        e ∈ unsyncedEntries st.base st.live) ∧
      KeepsOrder st.base st.live ∧
      (checkRoles st.base.roles? = .ok () → ∀ role, ∃ rest, st.live.listAt role =
        (st.base.listAt role).filter (fun e ↦ e ∈ st.live.listAt role) ++ rest)) ∧
    ∀ st, SyncRun (fun edit _ ↦ edit.NameOk) st →
      checkRoles st.base.roles? = .ok () → checkRoles st.live.roles? = .ok () := by
  refine ⟨fun st h ↦ ?_, fun st h hbase ↦ ?_⟩
  · have hinv := syncInv_of_reachable h
    refine ⟨hinv.present_eq, fun e he ↦ ?_, hinv.order, fun hbase role ↦ ?_⟩
    · have hne := hinv.conflict e he
      exact ⟨hne, mem_unsyncedEntries.mpr hne⟩
    · have hbaseNodup := nodup_listAt_of_checkRoles hbase role
      have hliveNodup : (st.live.listAt role).Nodup :=
        hinv.nodup.elim (fun hsame ↦ hsame ▸ hbaseNodup) fun hnodup ↦ hnodup role
      obtain ⟨rest, hrest⟩ := hinv.order role
      rw [firsts_of_nodup hliveNodup, firsts_of_nodup (hbaseNodup.filter _)] at hrest
      exact ⟨rest, hrest⟩
  · have hinv := ruleInv_of_run h fun hinv happly hedit ↦ hinv.nameOk_applyEdit happly hedit
    exact hinv.rules.elim id fun hsame ↦ hsame ▸ hbase

/-- A file that makes `alice` an admin. -/
def aliceBindings : Bindings :=
  .read (.map [("admin", .seq [.str "alice"])])
    (.ofList [("admin", [BindingEntry.name "alice"])] compare) rfl

/-- The invariant after a run that contains a uid. -/
theorem sync_invariant_contain :
    let base := Section.ofBindings aliceBindings
    let live := Section.present
      (.ofList [("admin", [BindingEntry.name "alice"]), ("adversary", [.uid 1000])] compare)
    applyEdit base base ∅ (.contain (.uid 1000)) = .ok (some ⟨live, ∅, []⟩) ∧
      KeepsOrder base live ∧ checkRoles base.roles? = .ok () ∧ checkRoles live.roles? = .ok () := by
  intro base live
  have happly : applyEdit base base ∅ (.contain (.uid 1000)) = .ok (some ⟨live, ∅, []⟩) := by
    decide +kernel
  have hbase : checkRoles base.roles? = .ok () := by decide +kernel
  obtain ⟨hstate, hrules⟩ := sync_invariant
  obtain ⟨-, -, horder, -⟩ :=
    hstate ⟨base, live, ∅⟩ (.edit (.contain (.uid 1000)) (.start base) happly)
  exact ⟨happly, horder, hbase,
    hrules ⟨base, live, ∅⟩ (.edit _ (.start aliceBindings) happly trivial) hbase⟩

/-- The same file with a uid contained. -/
def aliceContaining : Bindings :=
  .read (.map [("admin", .seq [.str "alice"]), ("adversary", .seq [.map [("uid", .int 7)]])])
    (.ofList [("admin", [BindingEntry.name "alice"]), ("adversary", [.uid 7])] compare) rfl

/-- After an edit that contains the name `uid:7`, a file that contains the uid breaks the rules. -/
theorem exists_run_breaks_rules : ∃ st, SyncRun (fun _ _ ↦ True) st ∧
    checkRoles st.base.roles? = .ok () ∧ checkRoles st.live.roles? ≠ .ok () := by
  have happly : applyEdit (.ofBindings aliceBindings) (.ofBindings aliceBindings) ∅
      (.contain (.name "uid:7")) = .ok (some ⟨.present (.ofList
        [("admin", [BindingEntry.name "alice"]), ("adversary", [.name "uid:7"])] compare),
          ∅, []⟩) := by
    decide +kernel
  have hrun := @SyncRun.edit (fun _ _ ↦ True) _ _ (.start aliceBindings) _ happly trivial
  exact ⟨_, hrun.merge aliceContaining (by decide +kernel), by decide +kernel, by decide +kernel⟩

end Maknae.Config
