import Maknae.Config.BindingsSync

/-!
# Live edits of the bindings

An operator or the kernel changes the live bindings without touching the file: a subject is
contained, released, bound or unbound. `editSection` changes the roles of the targets and of nothing
else, and refuses a result that breaks the rules of a section; `applyEdit` also settles the
conflicts of the entries it changed.

`rolesOf_of_editSection` is the frame: targets get their new roles and every other entry keeps its
own.
-/

namespace Maknae.Config

open List Std

inductive BoundRole
  | admin
  | user
  | guest

def BoundRole.key : BoundRole → String
  | admin => "admin"
  | user => "user"
  | guest => "guest"

inductive LiveEdit
  | contain (e : BindingEntry)
  | releaseUid (uid : UInt32) (names : ExtTreeSet String compare)
  | bind (name : String) (role : BoundRole)
  | unbind (name : String)

namespace LiveEdit

/-- The entries the edit is about. -/
def targets : LiveEdit → List BindingEntry
  | contain e => [e]
  | releaseUid uid names => .uid uid :: names.toList.map .name
  | bind name _ => [.name name]
  | unbind name => [.name name]

/-- The roles a target holds after the edit, from those it held. -/
def newRoles (edit : LiveEdit) (old : RoleSet) : RoleSet :=
  match edit with
  | contain _ => old.insert adversaryRole
  | releaseUid _ _ => old.erase adversaryRole
  | bind _ role => (old.filter fun r ↦ !boundRoles.contains r).insert role.key
  | unbind _ => old.filter fun r ↦ !boundRoles.contains r

/-- A name the edit can add to a list is one of the grammar. -/
def NameOk : LiveEdit → Prop
  | contain e => e.NameOk
  | bind name _ => BindingEntry.NameOk (.name name)
  | releaseUid _ _ | unbind _ => True

end LiveEdit

inductive EditError
  | noExplicitBindings
  | rules (e : RoleRuleError)
deriving DecidableEq, Repr

structure Edited where
  live : Section
  conflicts : EntrySet
  events : List MergeEvent
deriving DecidableEq

/-- The targets whose roles the edit changes, with their new roles. -/
def changedTargets (live : Section) (edit : LiveEdit) : Values :=
  edit.targets.filterMap fun target ↦
    let old := live.rolesOf target
    let new := edit.newRoles old
    if new ≠ old then some (target, new) else none

/-- Every entry of the live section with its roles after the edit. -/
def editValues (live : Section) (changed : Values) : Values :=
  let touched : EntrySet := .ofList (changed.map Prod.fst) compare
  (live.entries.filter fun e ↦ !touched.contains e).map (fun e ↦ (e, live.rolesOf e)) ++ changed

/-- Edit the live section; the answer also has the entries that changed. -/
def editSection (base live : Section) (edit : LiveEdit) :
    Except EditError (Option (Section × EntrySet)) :=
  if ¬base.isPresent ∨ ¬live.isPresent then .error .noExplicitBindings
  else
    let changed := changedTargets live edit
    if changed = [] then .ok none
    else
      let next := mergedSection base live (editValues live changed)
      match checkRoles next.roles? with
      | .error e => .error (.rules e)
      | .ok () => .ok (some (next, .ofList (changed.map Prod.fst) compare))

/-- Edit the live section and settle the conflicts of the entries that changed. -/
def applyEdit (base live : Section) (conflicts : EntrySet) (edit : LiveEdit) :
    Except EditError (Option Edited) :=
  match editSection base live edit with
  | .error e => .error e
  | .ok none => .ok none
  | .ok (some (next, changed)) =>
    .ok (some
      { live := next
        conflicts := conflicts.filter fun e ↦ !changed.contains e
        events := (changed.toList.filter fun e ↦ conflicts.contains e).map fun e ↦
          .resolved e .liveEdit })

/-! ### The frame of an edit -/

theorem LiveEdit.nodup_targets (edit : LiveEdit) : edit.targets.Nodup := by
  cases edit with
  | contain e | bind name role | unbind name => simp [targets]
  | releaseUid uid names =>
    have hnames : names.toList.Nodup := names.distinct_toList.imp fun hne heq ↦ hne (by simp [heq])
    simp only [targets, nodup_cons, mem_map, reduceCtorEq, and_false, exists_false,
      not_false_eq_true, true_and]
    exact hnames.map fun a b h ↦ BindingEntry.name.inj h

section Frame

variable {live : Section} {edit : LiveEdit} {e : BindingEntry}

theorem mem_changedTargets {roles} :
    (e, roles) ∈ changedTargets live edit ↔
      e ∈ edit.targets ∧ roles = edit.newRoles (live.rolesOf e) ∧ roles ≠ live.rolesOf e := by
  simp only [changedTargets, mem_filterMap]
  constructor
  · rintro ⟨t, ht, h⟩
    split_ifs at h with hne
    cases h
    exact ⟨ht, rfl, hne⟩
  · rintro ⟨ht, rfl, hne⟩
    exact ⟨e, ht, by rw [if_pos hne]⟩

theorem mem_fst_changedTargets :
    e ∈ (changedTargets live edit).map Prod.fst ↔
      e ∈ edit.targets ∧ edit.newRoles (live.rolesOf e) ≠ live.rolesOf e := by
  simp [mem_changedTargets]

theorem nodup_changedTargets : ((changedTargets live edit).map Prod.fst).Nodup := by
  refine pairwise_map.mpr (List.Pairwise.filterMap _ ?_ edit.nodup_targets)
  intro s t hne x hx y hy
  simp only [Option.ite_none_right_eq_some, Option.some.injEq] at hx hy
  rw [← hx.2, ← hy.2]
  exact hne

theorem nodup_editValues : ((editValues live (changedTargets live edit)).map Prod.fst).Nodup := by
  have hkept : ∀ l : List BindingEntry, (l.map fun e ↦ (e, live.rolesOf e)).map Prod.fst = l := by
    simp [Function.comp_def]
  rw [editValues, map_append, hkept]
  refine nodup_append.mpr ⟨live.nodup_entries.filter _, nodup_changedTargets, ?_⟩
  rintro a ha b hb rfl
  have hnot := (mem_filter.mp ha).2
  simp only [Bool.not_eq_true', ExtTreeSet.contains_ofList, contains_eq_mem,
    decide_eq_false_iff_not] at hnot
  exact hnot hb

/-- **The frame of an edit.** -/
theorem rolesOf_editValues :
    (editValues live (changedTargets live edit)).rolesOf e =
      if e ∈ edit.targets then edit.newRoles (live.rolesOf e) else live.rolesOf e := by
  by_cases hchanged : e ∈ (changedTargets live edit).map Prod.fst
  · obtain ⟨⟨e, roles⟩, hmem, rfl⟩ := mem_map.mp hchanged
    obtain ⟨htarget, hroles, -⟩ := mem_changedTargets.mp hmem
    rw [Values.rolesOf_of_mem nodup_editValues (mem_append_right _ hmem), if_pos htarget, hroles]
  · have hsame : (if e ∈ edit.targets then edit.newRoles (live.rolesOf e) else live.rolesOf e) =
        live.rolesOf e := by
      split_ifs with htarget
      · by_contra hne
        exact hchanged (mem_fst_changedTargets.mpr ⟨htarget, hne⟩)
      · rfl
    rw [hsame]
    by_cases hentry : e ∈ live.entries
    · refine Values.rolesOf_of_mem nodup_editValues (mem_append_left _ ?_)
      refine mem_map.mpr ⟨e, mem_filter.mpr ⟨hentry, ?_⟩, rfl⟩
      simpa [ExtTreeSet.contains_ofList] using hchanged
    · rw [Section.rolesOf_eq_empty hentry, Values.rolesOf_of_not_mem]
      simp only [editValues, map_append, mem_append, not_or]
      exact ⟨by simp [hentry], hchanged⟩

end Frame

variable {edit : LiveEdit} {changed : EntrySet} {base live next : Section} {e : BindingEntry}
  {edited : Edited} {conflicts : EntrySet}

section

variable (h : editSection base live edit = .ok (some (next, changed)))

include h

/-- What a successful edit is. -/
theorem editSection_eq_ok :
    base.isPresent ∧ live.isPresent ∧ checkRoles next.roles? = .ok () ∧
      next = mergedSection base live (editValues live (changedTargets live edit)) ∧
      changed = .ofList ((changedTargets live edit).map Prod.fst) compare := by
  unfold editSection at h
  dsimp only at h
  split_ifs at h with hpresent hnil
  · cases h
  · split at h
    · cases h
    · next hrules =>
      cases h
      rw [not_or, not_not, not_not] at hpresent
      exact ⟨hpresent.1, hpresent.2, hrules, rfl, rfl⟩

/-- The roles after an edit: targets get new ones, every other entry keeps its own. -/
theorem rolesOf_of_editSection (e : BindingEntry) :
    next.rolesOf e =
      if e ∈ edit.targets then edit.newRoles (live.rolesOf e) else live.rolesOf e := by
  obtain ⟨hbase, -, -, rfl, -⟩ := editSection_eq_ok h
  cases base with
  | missing | absent => cases hbase
  | present roles => rw [rolesOf_mergedSection nodup_editValues, rolesOf_editValues]

/-- The entries that changed are those with other roles than before. -/
theorem mem_changed_of_editSection : e ∈ changed ↔ next.rolesOf e ≠ live.rolesOf e := by
  obtain ⟨-, -, -, -, hchanged⟩ := editSection_eq_ok h
  rw [rolesOf_of_editSection h, hchanged, ExtTreeSet.mem_ofList, contains_iff_mem,
    mem_fst_changedTargets]
  split_ifs with htarget
  · exact and_iff_right htarget
  · exact ⟨fun hmem ↦ absurd hmem.1 htarget, fun hne ↦ absurd rfl hne⟩

end

theorem applyEdit_eq_ok {base live}
    (h : applyEdit base live conflicts edit = .ok (some edited)) :
    ∃ changed, editSection base live edit = .ok (some (edited.live, changed)) ∧
      edited.conflicts = conflicts.filter fun e ↦ !changed.contains e := by
  unfold applyEdit at h
  split at h
  · cases h
  · cases h
  · next next changed hsection =>
    cases h
    exact ⟨changed, hsection, rfl⟩

/-- **The conflicts after an edit** are those whose entries kept their roles. -/
theorem mem_conflicts_of_applyEdit {base live}
    (h : applyEdit base live conflicts edit = .ok (some edited)) :
    e ∈ edited.conflicts ↔ e ∈ conflicts ∧ edited.live.rolesOf e = live.rolesOf e := by
  obtain ⟨changed, hsection, hconflicts⟩ := applyEdit_eq_ok h
  have hkept : (!changed.contains e) = true ↔ edited.live.rolesOf e = live.rolesOf e := by
    rw [Bool.not_eq_true', ← Bool.not_eq_true, ExtTreeSet.contains_iff_mem,
      mem_changed_of_editSection hsection, not_not]
  rw [hconflicts, ExtTreeSet.mem_filter, ← hkept]
  constructor
  · rintro ⟨hmem, hget⟩
    rw [ExtTreeSet.get_eq] at hget
    exact ⟨hmem, hget⟩
  · rintro ⟨hmem, hnot⟩
    exact ⟨hmem, by rwa [ExtTreeSet.get_eq]⟩

/-- An edit that adds a role checks the name it adds it to. -/
theorem LiveEdit.nameOk_of_mem_newRoles (hedit : edit.NameOk) {old} {role}
    (h : role ∈ edit.newRoles old) (he : e ∈ edit.targets) :
    role ∈ old ∨ e.NameOk := by
  cases edit with
  | contain target | bind name bound =>
    obtain rfl := mem_singleton.mp he
    exact .inr hedit
  | releaseUid uid names => exact .inl (ExtTreeSet.mem_erase.mp h).2
  | unbind name =>
    obtain ⟨hmem, -⟩ := ExtTreeSet.mem_filter.mp h
    exact .inl hmem

end Maknae.Config
