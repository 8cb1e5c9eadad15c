import Maknae.Config.SyncState

/-!
# Laws of the sync

What the sync promises to those who run it over and over. A live edit changes its targets and
nothing else, not even an order (`applyEdit_frame`). A merge settles: the same file a second time
changes nothing and reports nothing. And it converges: a file that is the live section leaves no
conflict and nothing unsynced (`merge_settles`).

All three come down to one fact on lists (`filter_listAt_mergedSection`). A merged section lists in
every role the entries of its shape, then those of the live section. The live section of a run lists
what it keeps of the base first, so that shaping it again by the base changes no order.
-/

namespace Maknae.Config

open List Std.ExtTreeSet

/-! ### Shaping a section again -/

section Reshape

variable {file : RoleMap} {live : Section} {values : Values}

/-- The list of a role, as the loops of a merge go over it. -/
theorem listAt_mergedSection_eq (role : String) :
    (mergedSection (.present file) live values).listAt role =
      (firsts ((Section.present file).listAt role ++ live.listAt role ++
        valuesAt (valuePairs values) role)).filter fun e ↦ (values.rolesOf e).contains role := by
  have hlive : valuesAt (rolePairs (live.roles?.getD ∅)) role = live.listAt role := by
    rw [valuesAt_rolePairs]
    rfl
  rw [listAt_mergedSection, mergedPairs, valuesAt_filter, valuesAt_append, valuesAt_append,
    valuesAt_rolePairs, hlive, firsts_filter]

/-- **Entries that keep their role keep their order in it.** -/
theorem filter_listAt_mergedSection (horder : KeepsOrder (.present file) live)
    (kept : BindingEntry → Bool) (role : String)
    (hkept : ∀ e, kept e → (role ∈ values.rolesOf e ↔ e ∈ live.listAt role)) :
    ((mergedSection (.present file) live values).listAt role).filter kept =
      firsts ((live.listAt role).filter kept) := by
  obtain ⟨rest, hrest⟩ := horder role
  have hvalues : ((valuesAt (valuePairs values) role).filter fun e ↦ e ∈ live.listAt role) ⊆
      ((Section.present file).listAt role).filter (fun e ↦ e ∈ live.listAt role) ++
        live.listAt role := fun e he ↦
    mem_append_right _ (of_decide_eq_true (mem_filter.mp he).2)
  have hself : ((live.listAt role).filter fun e ↦ e ∈ live.listAt role) = live.listAt role :=
    filter_eq_self.mpr fun e he ↦ decide_eq_true he
  calc ((mergedSection (.present file) live values).listAt role).filter kept
      = ((firsts ((Section.present file).listAt role ++ live.listAt role ++
          valuesAt (valuePairs values) role)).filter fun e ↦ e ∈ live.listAt role).filter kept := by
        rw [listAt_mergedSection_eq, filter_filter, filter_filter]
        refine filter_congr fun e _ ↦ ?_
        by_cases he : kept e
        · rw [he, Bool.true_and, Bool.true_and, Bool.eq_iff_iff, Std.ExtTreeSet.contains_iff_mem,
            hkept e he, decide_eq_true_iff]
        · simp [he]
    _ = (firsts (live.listAt role)).filter kept := by
        rw [← firsts_filter, filter_append, filter_append, hself,
          firsts_append_of_subset hvalues, firsts_append_of_eq_append hrest]
    _ = firsts ((live.listAt role).filter kept) := (firsts_filter ..).symm

/-- Where every entry keeps its roles, the lists stay as they are. -/
theorem listAt_mergedSection_of_kept (horder : KeepsOrder (.present file) live)
    (hkept : ∀ e, values.rolesOf e = live.rolesOf e) (role : String) :
    (mergedSection (.present file) live values).listAt role = firsts (live.listAt role) := by
  have h := filter_listAt_mergedSection horder (fun _ ↦ true) role fun e _ ↦ by
    rw [hkept, Section.mem_listAt]
  simpa using h

/-- The lists that are there: those of the shape, and those with entries. -/
def listsOf (shape : RoleMap) (lists : String → List BindingEntry) (role : String) :
    Option (List BindingEntry) :=
  if lists role = [] then shape[role]?.map fun _ ↦ [] else some (lists role)

theorem getElem?_mergedSection (role : String) :
    ((mergedSection (.present file) live values).roles?.getD ∅)[role]? =
      listsOf file (mergedSection (.present file) live values).listAt role := by
  rw [listsOf, listAt_mergedSection]
  show ((mergedPairs file live values).foldl addTo (file.map fun _ _ ↦ []))[role]? = _
  rw [getElem?_foldl_addTo, Std.ExtTreeMap.getElem?_map]
  by_cases hnil : valuesAt (mergedPairs file live values) role = []
  · rw [hnil]
    rfl
  · have hne : firsts (valuesAt (mergedPairs file live values) role) ≠ [] := fun h ↦ by
      obtain ⟨e, he⟩ := exists_mem_of_ne_nil _ hnil
      exact not_mem_nil (h ▸ mem_firsts.mpr he)
    rw [if_neg hnil, if_neg hne]
    cases file[role]? with
    | none | some l => rfl

/-- A merged section is determined by its lists. -/
theorem mergedSection_eq {m}
    (h : ∀ role, m[role]? =
      listsOf file (mergedSection (.present file) live values).listAt role) :
    mergedSection (.present file) live values = .present m :=
  congrArg Section.present (Std.ExtTreeMap.ext_getElem? fun role ↦
    (getElem?_mergedSection role).trans (h role).symm)

end Reshape

/-! ### The frame of an edit -/

namespace LiveEdit

/-- **What an edit prescribes**: the target holds the role afterwards, if it held `old`. -/
def Prescribes (edit : LiveEdit) (old : RoleSet) (role : String) : Prop :=
  match edit with
  | contain _ => role = "adversary" ∨ role ∈ old
  | releaseUid _ _ => role ≠ "adversary" ∧ role ∈ old
  | bind _ bound => role = bound.key ∨ role ∉ ["admin", "user", "guest"] ∧ role ∈ old
  | unbind _ => role ∉ ["admin", "user", "guest"] ∧ role ∈ old

/-- The entries an edit is about. -/
def IsTarget (edit : LiveEdit) (e : BindingEntry) : Prop :=
  match edit with
  | contain target => e = target
  | releaseUid uid names => e = .uid uid ∨ ∃ name ∈ names, e = .name name
  | bind name _ => e = .name name
  | unbind name => e = .name name

variable {edit : LiveEdit} {old : RoleSet}

theorem mem_targets {e : BindingEntry} : e ∈ edit.targets ↔ edit.IsTarget e := by
  cases edit with
  | contain target | bind name bound | unbind name => exact mem_singleton
  | releaseUid uid names => simp [targets, IsTarget, eq_comm]

instance (edit : LiveEdit) (e : BindingEntry) : Decidable (edit.IsTarget e) :=
  decidable_of_iff _ mem_targets

theorem mem_newRoles {role : String} :
    role ∈ edit.newRoles old ↔ edit.Prescribes old role := by
  have hbound : role ∈ (old.filter fun r ↦ !boundRoles.contains r) ↔
      role ∉ ["admin", "user", "guest"] ∧ role ∈ old := by
    rw [Std.ExtTreeSet.mem_filter]
    constructor
    · rintro ⟨hmem, hnot⟩
      exact ⟨by simpa [boundRoles] using hnot, hmem⟩
    · rintro ⟨hnot, hmem⟩
      exact ⟨hmem, by rw [get_eq]; simpa [boundRoles] using hnot⟩
  cases edit with
  | contain target =>
    rw [newRoles, mem_insert, Std.compare_eq_iff_eq, eq_comm]
    rfl
  | releaseUid uid names =>
    rw [newRoles, mem_erase, ne_eq, Std.compare_eq_iff_eq, eq_comm]
    rfl
  | bind name bound =>
    rw [newRoles, mem_insert, Std.compare_eq_iff_eq, eq_comm, hbound]
    rfl
  | unbind name => exact hbound

theorem newRoles_eq_iff :
    edit.newRoles old = old ↔ ∀ role, edit.Prescribes old role ↔ role ∈ old := by
  constructor
  · intro h role
    rw [← mem_newRoles, h]
  · intro h
    refine ext_mem fun role ↦ ?_
    rw [mem_newRoles, h role]

end LiveEdit

/-- An edit that changes nothing says so. -/
theorem applyEdit_eq_none {base live conflicts edit}
    (hbase : base.isPresent) (hlive : live.isPresent) :
    applyEdit base live conflicts edit = .ok none ↔
      ∀ e ∈ edit.targets, edit.newRoles (live.rolesOf e) = live.rolesOf e := by
  have hnil : changedTargets live edit = [] ↔
      ∀ e ∈ edit.targets, edit.newRoles (live.rolesOf e) = live.rolesOf e := by
    rw [changedTargets]
    simp
  have hsection : editSection base live edit = .ok none ↔ changedTargets live edit = [] := by
    unfold editSection
    rw [if_neg (by simp [hbase, hlive])]
    dsimp only
    split_ifs with h
    · exact iff_of_true rfl h
    · refine iff_of_false (fun heq ↦ ?_) h
      split at heq <;> cases heq
  rw [applyEdit]
  split <;> simp_all

/-- The entries that are no targets keep their order. -/
theorem filter_listAt_of_editSection {base live next : Section} {edit : LiveEdit}
    {changed : EntrySet} (horder : KeepsOrder base live)
    (h : editSection base live edit = .ok (some (next, changed))) (role : String) :
    ((next.listAt role).filter fun e ↦ ¬edit.IsTarget e) =
      firsts ((live.listAt role).filter fun e ↦ ¬edit.IsTarget e) := by
  obtain ⟨hbase, -, -, rfl, -⟩ := editSection_eq_ok h
  cases base with
  | missing | absent => cases hbase
  | present roles =>
    refine filter_listAt_mergedSection horder _ role fun e he ↦ ?_
    rw [rolesOf_editValues, if_neg fun hmem ↦ of_decide_eq_true he (LiveEdit.mem_targets.mp hmem),
      Section.mem_listAt]

/-- **The frame of an edit.** An edit answers that there is nothing to do exactly when what it
prescribes is so already. Otherwise its targets hold the prescribed roles; every other entry keeps
its roles, and in each its place among the others; and the conflicts lose the targets whose roles
changed. -/
theorem applyEdit_frame {st : Stored} (h : SyncReachable st) (hbase : st.base.isPresent)
    (hlive : st.live.isPresent) (edit : LiveEdit) :
    (applyEdit st.base st.live st.conflicts edit = .ok none ↔
      ∀ e, edit.IsTarget e → ∀ role,
        edit.Prescribes (st.live.rolesOf e) role ↔ role ∈ st.live.rolesOf e) ∧
    ∀ edited, applyEdit st.base st.live st.conflicts edit = .ok (some edited) →
      (∀ e, ¬edit.IsTarget e → edited.live.rolesOf e = st.live.rolesOf e) ∧
      (∀ role, ((edited.live.listAt role).filter fun e ↦ ¬edit.IsTarget e) =
        firsts ((st.live.listAt role).filter fun e ↦ ¬edit.IsTarget e)) ∧
      (checkRoles st.live.roles? = .ok () → ∀ role,
        ((edited.live.listAt role).filter fun e ↦ ¬edit.IsTarget e) =
          (st.live.listAt role).filter fun e ↦ ¬edit.IsTarget e) ∧
      (∀ e, edit.IsTarget e → ∀ role,
        role ∈ edited.live.rolesOf e ↔ edit.Prescribes (st.live.rolesOf e) role) ∧
      ∀ e, e ∈ edited.conflicts ↔
        e ∈ st.conflicts ∧ ¬(edit.IsTarget e ∧ edited.live.rolesOf e ≠ st.live.rolesOf e) := by
  refine ⟨?_, fun edited happly ↦ ?_⟩
  · rw [applyEdit_eq_none hbase hlive]
    simp only [LiveEdit.mem_targets, LiveEdit.newRoles_eq_iff]
  obtain ⟨changed, hsection, -⟩ := applyEdit_eq_ok happly
  have hroles (e : BindingEntry) : edited.live.rolesOf e =
      if edit.IsTarget e then edit.newRoles (st.live.rolesOf e) else st.live.rolesOf e := by
    rw [rolesOf_of_editSection hsection]
    simp only [LiveEdit.mem_targets]
  have horder (role : String) :=
    filter_listAt_of_editSection (syncInv_of_reachable h).order hsection role
  refine ⟨fun e he ↦ ?_, horder, fun hrules role ↦ ?_, fun e he role ↦ ?_, fun e ↦ ?_⟩
  · rw [hroles, if_neg he]
  · rw [horder, firsts_of_nodup ((nodup_listAt_of_checkRoles hrules role).filter _)]
  · rw [hroles, if_pos he, LiveEdit.mem_newRoles]
  · rw [mem_conflicts_of_applyEdit happly]
    refine and_congr_right fun _ ↦ ?_
    by_cases he : edit.IsTarget e
    · simp [he]
    · simp [hroles]

/-- The frame of an edit that contains a uid. -/
theorem applyEdit_frame_contain :
    let base := Section.ofBindings aliceBindings
    ∃ edited, applyEdit base base ∅ (.contain (.uid 1000)) = .ok (some edited) ∧
      "adversary" ∈ edited.live.rolesOf (.uid 1000) ∧
      edited.live.rolesOf (.name "alice") = base.rolesOf (.name "alice") := by
  intro base
  have happly : applyEdit base base ∅ (.contain (.uid 1000)) = .ok (some ⟨Section.present
      (.ofList [("admin", [BindingEntry.name "alice"]), ("adversary", [.uid 1000])] compare),
        ∅, []⟩) := by
    decide +kernel
  obtain ⟨-, hframe⟩ := applyEdit_frame (.start base) rfl rfl (.contain (.uid 1000))
  obtain ⟨hothers, -, -, htarget, -⟩ := hframe _ happly
  exact ⟨_, happly, (htarget _ rfl _).mpr (.inl rfl), hothers _ nofun⟩

/-! ### Merging again -/

section Again

variable {st : Stored} {fileRoles : RoleMap}

/-- What a merge decides where the file says what the base does. -/
theorem mergeEntry_of_file_eq_base {conflicting b l e}
    (h : conflicting = true → b ≠ l) :
    mergeEntry conflicting b l b e = { value := l, conflict := conflicting } := by
  cases conflicting with
  | true =>
    rw [mergeEntry, if_pos rfl, if_neg (by simpa using h rfl)]
  | false => rw [mergeEntry, if_neg Bool.false_ne_true, if_pos rfl]

/-- Where the file says what the live section does, the entry is settled. -/
theorem mergeEntry_of_file_eq_live {conflicting b l e} :
    (mergeEntry conflicting b l l e).value = l ∧
      (mergeEntry conflicting b l l e).conflict = false := by
  rw [value_mergeEntry, ← Bool.not_eq_true, conflict_mergeEntry]
  refine ⟨?_, by simp⟩
  rw [mergeTable]
  split_ifs <;> simp_all

theorem merge_present :
    merge (some st) (.present fileRoles) = mergeStored st (.present fileRoles) := by
  simp [merge, lostSection, Section.isPresent, Section.roles?]

/-- A state that its file was merged into. -/
structure Settled (fileRoles : RoleMap) (st : Stored) : Prop where
  base_eq : st.base = .present fileRoles
  conflict : ∀ e ∈ st.conflicts, st.base.rolesOf e ≠ st.live.rolesOf e
  order : KeepsOrder st.base st.live
  nodup : ∀ role, (st.live.listAt role).Nodup
  lists : ∃ m, st.live = .present m ∧ ∀ role, m[role]? = listsOf fileRoles st.live.listAt role

theorem settled_merge : Settled fileRoles (merge (some st) (.present fileRoles)).stored := by
  have hlive : (mergeStored st (.present fileRoles)).live =
      mergedSection (.present fileRoles) st.live (st.values (.present fileRoles)) :=
    Stored.live_mergeStored
  have hinv := syncInv_mergeStored st fileRoles
  rw [merge_present]
  refine ⟨rfl, hinv.conflict, hinv.order, fun role ↦ ?_, _, hlive, fun role ↦ ?_⟩
  · show ((mergeStored st (.present fileRoles)).live.listAt role).Nodup
    rw [hlive]
    exact nodup_listAt_mergedSection role
  · show _ = listsOf fileRoles (mergeStored st (.present fileRoles)).live.listAt role
    rw [hlive]
    exact getElem?_mergedSection role

/-- **A settled state stays as it is**, and nothing is reported. -/
theorem Settled.merge (h : Settled fileRoles st) : merge (some st) (.present fileRoles) =
    ⟨st.base, st.live, st.conflicts, .unchanged, []⟩ := by
  have hdecide (e : BindingEntry) : st.decideEntry (.present fileRoles) e =
      { value := st.live.rolesOf e, conflict := st.conflicts.contains e } := by
    rw [← h.base_eq]
    exact mergeEntry_of_file_eq_base fun hc ↦ h.conflict e (Std.ExtTreeSet.contains_iff_mem.mp hc)
  have hlive : (mergeStored st (.present fileRoles)).live = st.live := by
    obtain ⟨m, hm, hlists⟩ := h.lists
    rw [Stored.live_mergeStored, hm]
    refine mergedSection_eq fun role ↦ ?_
    have horder : KeepsOrder (.present fileRoles) (.present m) := by
      have := h.order
      rwa [h.base_eq, hm] at this
    have hkept (e : BindingEntry) :
        (st.values (.present fileRoles)).rolesOf e = (Section.present m).rolesOf e := by
      rw [Stored.rolesOf_values, hdecide, hm]
    have hnodup := h.nodup role
    rw [hm] at hnodup
    rw [hlists, listsOf, listsOf, listAt_mergedSection_of_kept horder hkept, hm,
      firsts_of_nodup hnodup]
  have hconflicts : (mergeStored st (.present fileRoles)).conflicts = st.conflicts :=
    Std.ExtTreeSet.ext_mem fun e ↦ by
      rw [Stored.mem_conflicts_mergeStored, hdecide, Std.ExtTreeSet.contains_iff_mem]
  have hkind : (mergeStored st (.present fileRoles)).kind = .unchanged := by
    simp [mergeStored, hdecide, h.base_eq]
  have hevents : (mergeStored st (.present fileRoles)).events = [] := by
    simp [mergeStored, hdecide]
  rw [merge_present, ← hlive, ← hconflicts, ← hkind, ← hevents, h.base_eq]
  rfl

/-- A file that is the live section leaves nothing open. -/
theorem mergeStored_of_live (hlive : st.live = .present fileRoles)
    (hrules : checkRoles (some fileRoles) = .ok ()) :
    (mergeStored st (.present fileRoles)).live = .present fileRoles ∧
      (mergeStored st (.present fileRoles)).conflicts = ∅ := by
  have hdecide (e : BindingEntry) := @mergeEntry_of_file_eq_live (st.conflicts.contains e)
  constructor
  · rw [Stored.live_mergeStored, hlive]
    have hkept (e : BindingEntry) :
        (st.values (.present fileRoles)).rolesOf e = (Section.present fileRoles).rolesOf e := by
      rw [Stored.rolesOf_values, Stored.decideEntry, hlive]
      exact (hdecide e).1
    refine mergedSection_eq fun role ↦ ?_
    have hnodup := nodup_listAt_of_checkRoles (s := .present fileRoles) hrules role
    rw [listsOf, listAt_mergedSection_of_kept (keepsOrder_refl _) hkept, firsts_of_nodup hnodup]
    show _ = if fileRoles[role]?.getD [] = [] then _ else some (fileRoles[role]?.getD [])
    cases fileRoles[role]? with
    | none => rfl
    | some l => cases l <;> rfl
  · refine ext_mem fun e ↦ ?_
    rw [Stored.mem_conflicts_mergeStored, Stored.decideEntry, hlive, (hdecide e).2]
    exact iff_of_false Bool.false_ne_true not_mem_empty

end Again

theorem unsynced_self (s : Section) : unsynced s s = 0 := by
  rw [unsynced, unsyncedEntries]
  simp

/-- **The merge settles and converges.** Merging a file again, however often, changes neither the
state nor its texts and reports nothing. Merging the live section itself leaves a base and live
bindings that are the file, no conflict, and nothing unsynced. -/
theorem merge_settles (st : Stored) {fileRoles : RoleMap}
    (hrules : checkRoles (some fileRoles) = .ok ()) :
    let file := Section.present fileRoles
    let merged := merge (some st) file
    (∀ n : ℕ, merge (some ((fun s ↦ (merge (some s) file).stored)^[n] merged.stored)) file =
      { merged with kind := .unchanged, events := [] }) ∧
    (st.live = file → merged.base = file ∧ merged.live = file ∧ merged.conflicts = ∅ ∧
      unsynced merged.base merged.live = 0) := by
  intro file merged
  have hagain : merge (some merged.stored) file =
      { merged with kind := .unchanged, events := [] } :=
    settled_merge.merge
  refine ⟨fun n ↦ ?_, fun hlive ↦ ?_⟩
  · have hfixed : (fun s ↦ (merge (some s) file).stored) merged.stored = merged.stored := by
      show (merge (some merged.stored) file).stored = merged.stored
      rw [hagain]
      rfl
    rw [Function.iterate_fixed hfixed, hagain]
  · have hmerged : merged = mergeStored st file := merge_present
    obtain ⟨hnext, hconflicts⟩ := mergeStored_of_live hlive hrules
    rw [hmerged, hnext, hconflicts]
    exact ⟨rfl, rfl, rfl, unsynced_self file⟩

/-- The file that makes `alice` an admin, after a uid was contained. -/
theorem merge_settles_alice :
    let live := Section.present
      (.ofList [("admin", [BindingEntry.name "alice"]), ("adversary", [.uid 1000])] compare)
    let st : Stored := ⟨.ofBindings aliceBindings, live, ∅⟩
    (merge (some st) live).live = live ∧ unsynced (merge (some st) live).base live = 0 := by
  intro live st
  obtain ⟨-, hconverges⟩ := @merge_settles st
    (.ofList [("admin", [BindingEntry.name "alice"]), ("adversary", [.uid 1000])] compare)
    (by decide +kernel)
  obtain ⟨-, hlive, -, hunsynced⟩ := hconverges rfl
  exact ⟨hlive, by rwa [hlive] at hunsynced⟩

/-! ### Containment through a run -/

/-- A run that does not release an entry, and in which no file changes its roles. -/
inductive Unreleased (e : BindingEntry) (st : Stored) : Stored → Prop
  | refl : Unreleased e st st
  | merge {st' : Stored} (file : Section) (hrun : Unreleased e st st')
      (hfile : file.isPresent → file.rolesOf e = st'.base.rolesOf e) :
      Unreleased e st (merge (some st') file).stored
  | edit {st' : Stored} {edit : LiveEdit} {edited : Edited} (hrun : Unreleased e st st')
      (hedit : ∀ uid names, edit = .releaseUid uid names → ¬edit.IsTarget e)
      (happly : applyEdit st'.base st'.live st'.conflicts edit = .ok (some edited)) :
      Unreleased e st ⟨st'.base, edited.live, edited.conflicts⟩

section Contained

variable {e : BindingEntry} {st st' : Stored}

/-- A merge follows the table, unless the section is lost from the file. -/
theorem live_merge_cases (hbase : st.base.isPresent) (file : Section) :
    (merge (some st) file).base.isPresent ∧
      ((merge (some st) file).live.rolesOf e = st.live.rolesOf e ∨
        file.isPresent ∧ (merge (some st) file).live.rolesOf e =
          mergeTable (e ∈ st.conflicts) (st.base.rolesOf e) (st.live.rolesOf e)
            (file.rolesOf e)) := by
  cases file with
  | present roles =>
    rw [merge_present, Stored.rolesOf_live_mergeStored, value_decideEntry]
    exact ⟨rfl, .inr ⟨rfl, rfl⟩⟩
  | missing | absent =>
    rw [merge, lostSection, hbase]
    exact ⟨hbase, .inl rfl⟩

/-- An edit that releases nobody keeps containment. -/
theorem contained_of_applyEdit {edit edited}
    (hedit : ∀ uid names, edit = .releaseUid uid names → ¬edit.IsTarget e)
    (happly : applyEdit st.base st.live st.conflicts edit = .ok (some edited))
    (h : adversaryRole ∈ st.live.rolesOf e) : adversaryRole ∈ edited.live.rolesOf e := by
  obtain ⟨changed, hsection, -⟩ := applyEdit_eq_ok happly
  rw [rolesOf_of_editSection hsection]
  split_ifs with htarget
  · rw [LiveEdit.mem_newRoles]
    cases edit with
    | contain target => exact .inl rfl
    | releaseUid uid names => exact absurd (LiveEdit.mem_targets.mp htarget) (hedit _ _ rfl)
    | bind name bound => exact .inr ⟨by decide, h⟩
    | unbind name => exact ⟨by decide, h⟩
  · exact h

theorem Unreleased.contained (hrun : Unreleased e st st') (hbase : st.base.isPresent)
    (h : adversaryRole ∈ st.live.rolesOf e) :
    st'.base.isPresent ∧ adversaryRole ∈ st'.live.rolesOf e := by
  induction hrun with
  | refl => exact ⟨hbase, h⟩
  | @merge st' file _ hfile ih =>
    obtain ⟨hpresent, hroles⟩ := live_merge_cases (e := e) ih.1 file
    refine ⟨hpresent, ?_⟩
    show _ ∈ (Config.merge _ file).live.rolesOf e
    rcases hroles with heq | ⟨hthere, heq⟩
    · exact heq ▸ ih.2
    · -- Where the file says what the base does, the table keeps the live roles.
      rw [heq, hfile hthere, mergeTable]
      split_ifs <;> simp_all
  | edit _ hedit happly ih => exact ⟨ih.1, contained_of_applyEdit hedit happly ih.2⟩

/-- **Containment lasts until it is released**, through merges and edits. And where it is the live
bindings alone that contain an entry, no file releases it. -/
theorem contained_until_released (hrun : Unreleased e st st') (hbase : st.base.isPresent)
    (h : adversaryRole ∈ st.live.rolesOf e) :
    adversaryRole ∈ st'.live.rolesOf e ∧ (e ∉ st'.conflicts →
      st'.live.rolesOf e ≠ st'.base.rolesOf e → ∀ file,
        adversaryRole ∈ (merge (some st') file).live.rolesOf e) := by
  obtain ⟨hpresent, hlive⟩ := hrun.contained hbase h
  refine ⟨hlive, fun hconflict hne file ↦ ?_⟩
  obtain ⟨-, heq | ⟨-, heq⟩⟩ := live_merge_cases (e := e) hpresent file
  · exact heq ▸ hlive
  · rw [heq, mergeTable, if_neg hconflict]
    split_ifs with hfile hsame
    · exact hlive
    · exact hsame.resolve_left hne ▸ hlive
    · rw [safeRoles, if_pos (by simp [hlive])]
      exact Std.ExtTreeSet.mem_insert_self

end Contained

/-- A contained uid, after a merge that changes nothing and one with a file that lists nobody. -/
theorem contained_until_released_uid :
    let base := Section.ofBindings aliceBindings
    let live := Section.present
      (.ofList [("admin", [BindingEntry.name "alice"]), ("adversary", [.uid 1000])] compare)
    let merged := merge (some ⟨base, live, ∅⟩) base
    adversaryRole ∈ (merge (some merged.stored) (.present ∅)).live.rolesOf (.uid 1000) := by
  intro base live merged
  exact (contained_until_released (.merge base .refl fun _ ↦ rfl) rfl (by decide +kernel)).2
    (by decide +kernel) (by decide +kernel) _

end Maknae.Config
