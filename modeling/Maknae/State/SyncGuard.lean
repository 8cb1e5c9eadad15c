import Maknae.Config.CanonicalText
import Maknae.Config.SyncState
import Maknae.State.Transition

/-!
# The guard of live edits

Two pieces of code decide what a live edit does to the conflicts of the sync state. The writer
(`applyEdit`) settles the conflicts of the entries it changed. The guard of the store
(`checkSync` under the rule that keeps the base) does not know the edit: it reads the texts of the
stored and of the proposed state, and recomputes from the two live sections what may have been
settled. If they disagreed, a containment would fail after it was written to the trail.

They agree because both come down to one condition on the entries: a conflict is settled exactly if
the roles of its entry in `live` changed (`mem_conflicts_of_applyEdit`,
`dropsOnlyEditedEntries_iff`). What is left is that the texts can be read. The daemon reads the
stored ones before it edits (`storedSections`), and an entry whose conflict was settled is one that
was read; so every entry of the new section is of the grammar, whatever the edit was.
-/

namespace Maknae.State

open Config List Section StateGraph Std

/-- The sync state a store holds, if its texts can be read. -/
def storedSections (parseJson : String → Option Value) (s : SyncBase) : Option Stored := do
  let base ← Section.fromCanonical parseJson s.base
  let live ← Section.fromCanonical parseJson s.live
  let conflicts ← conflictsFromCanonical parseJson s.conflicts
  return ⟨base, live, conflicts⟩

/-- The texts of a sync state. -/
def texts (st : Stored) : SyncBase :=
  ⟨st.base.canonical, st.live.canonical, conflictsCanonical st.conflicts⟩

section Read

variable {parseJson : String → Option Value}

theorem storedSections_eq_some {s st} :
    storedSections parseJson s = some st ↔ Section.fromCanonical parseJson s.base = some st.base ∧
      Section.fromCanonical parseJson s.live = some st.live ∧
      conflictsFromCanonical parseJson s.conflicts = some st.conflicts := by
  constructor
  · intro h
    obtain ⟨base, hbase, h⟩ := Option.bind_eq_some_iff.mp h
    obtain ⟨live, hlive, h⟩ := Option.bind_eq_some_iff.mp h
    obtain ⟨conflicts, hconflicts, h⟩ := Option.bind_eq_some_iff.mp h
    cases h
    exact ⟨hbase, hlive, hconflicts⟩
  · rintro ⟨hbase, hlive, hconflicts⟩
    simp [storedSections, hbase, hlive, hconflicts]

end Read

/-! ### Runs -/

/-- The sync states of the daemon, which commits an edit only if the texts it leaves can be read
again. -/
def ReadableRun (parseJson : String → Option Value) : Stored → Prop :=
  SyncRun fun _ st ↦ (storedSections parseJson (texts st)).isSome

section Run

variable {parseJson : String → Option Value} {st : Stored}

/-- The entries of a run are of the grammar. -/
structure AllGrammatical (st : Stored) : Prop where
  base : ∀ e ∈ st.base.entries, e.Grammatical
  live : ∀ e ∈ st.live.entries, e.Grammatical

/-- A merge gives roles to entries of the file and of the stored state only. -/
theorem AllGrammatical.merge (h : AllGrammatical st) (b : Bindings) :
    AllGrammatical (Config.merge (some st) (.ofBindings b)).stored := by
  unfold Config.merge
  dsimp only
  split_ifs
  · exact h
  · refine ⟨fun e he ↦ grammatical_of_ofBindings he, fun e he ↦ ?_⟩
    obtain ⟨role, hrole⟩ := mem_entries.mp he
    have hrole : role ∈ (mergeStored st (.ofBindings b)).live.rolesOf e := hrole
    cases hfile : Section.ofBindings b with
    | missing | absent =>
      rw [hfile] at hrole
      exact absurd hrole ExtTreeSet.not_mem_empty
    | present m =>
      rw [hfile, Stored.rolesOf_live_mergeStored, value_decideEntry] at hrole
      rcases mem_of_mem_mergeTable hrole with hf | hl
      · exact grammatical_of_ofBindings (mem_entries.mpr ⟨role, hfile ▸ hf⟩)
      · exact h.live e (mem_entries.mpr ⟨role, hl⟩)

/-- The entries of a state whose text can be read are of the grammar. -/
theorem grammatical_of_readable (hreader : ReadsBack parseJson)
    (h : (storedSections parseJson (texts st)).isSome) : ∀ e ∈ st.live.entries, e.Grammatical := by
  obtain ⟨st', hst'⟩ := Option.isSome_iff_exists.mp h
  obtain ⟨-, hlive, -⟩ := storedSections_eq_some.mp hst'
  exact grammatical_of_fromCanonical_isSome hreader (Option.isSome_iff_exists.mpr ⟨_, hlive⟩)

theorem allGrammatical_of_run (hreader : ReadsBack parseJson) (h : ReadableRun parseJson st) :
    AllGrammatical st := by
  induction h with
  | start b =>
    exact ⟨fun e he ↦ grammatical_of_ofBindings he, fun e he ↦ grammatical_of_ofBindings he⟩
  | merge b _ _ ih => exact ih.merge b
  | edit edit _ _ hread ih => exact ⟨ih.base, grammatical_of_readable hreader hread⟩

theorem ruleInv_of_readableRun (hreader : ReadsBack parseJson) (h : ReadableRun parseJson st) :
    RuleInv st :=
  ruleInv_of_run h fun _ _ hread e he ↦ (grammatical_of_readable hreader hread e he).nameOk

/-- **The texts of a run are read back**, as far as the guard reads them. -/
theorem read_texts_of_run (hreader : ReadsBack parseJson) (h : ReadableRun parseJson st) :
    conflictsFromCanonical parseJson (texts st).conflicts = some st.conflicts ∧
      ((∃ e, e ∈ st.conflicts) → Section.fromCanonical parseJson (texts st).live =
        some st.live) := by
  have hinv := ruleInv_of_readableRun hreader h
  have hgrammar := allGrammatical_of_run hreader h
  refine ⟨conflictsFromCanonical_canonical hreader fun e he ↦ ?_, fun ⟨e, he⟩ ↦ ?_⟩
  · -- a conflict is about an entry of one of the sections
    by_cases hbase : e ∈ st.base.entries
    · exact hgrammar.base e hbase
    · refine hgrammar.live e (not_not.mp fun hnot ↦ hinv.conflict e he ?_)
      rw [rolesOf_eq_empty hbase, rolesOf_eq_empty hnot]
  · -- with a conflict the sections differ, so `live` was merged or edited and keeps the rules
    have hrules := hinv.rules.resolve_right fun hsame ↦ hinv.conflict e he (by rw [hsame])
    exact fromCanonical_canonical hreader hrules hgrammar.live

end Run

/-! ### The guard -/

section Guard

variable {setting : Setting} {s p : SyncBase}

/-- What the guard asks of the conflicts: none is new, some were dropped, and the dropped ones are
those whose entries have other roles now. -/
structure Settles (was now : EntrySet) (old new : Section) : Prop where
  subset : ∀ e ∈ now, e ∈ was
  dropped : ∃ e ∈ was, e ∉ now
  changed : ∀ e ∈ was, e ∉ now ↔ old.rolesOf e ≠ new.rolesOf e

variable {was now : EntrySet} {e : BindingEntry} {old new : Section} {edit : LiveEdit}
  {t : Transition}

theorem mem_dropped :
    e ∈ was.filter (fun e ↦ !now.contains e) ↔ e ∈ was ∧ e ∉ now := by
  rw [ExtTreeSet.mem_filter]
  simp only [ExtTreeSet.get_eq, Bool.not_eq_true', ← Bool.not_eq_true,
    ExtTreeSet.contains_iff_mem, exists_prop]

theorem isEmpty_eq_false_iff_exists {c : EntrySet} : c.isEmpty = false ↔ ∃ e, e ∈ c := by
  rw [ExtTreeSet.isEmpty_eq_false_iff]
  constructor
  · intro hne
    by_contra hnone
    exact hne (ExtTreeSet.ext_mem fun e ↦
      ⟨fun he ↦ absurd ⟨e, he⟩ hnone, fun he ↦ absurd he ExtTreeSet.not_mem_empty⟩)
  · rintro ⟨e, he⟩ rfl
    exact ExtTreeSet.not_mem_empty he

theorem mem_changedListed {was : EntrySet} :
    e ∈ ExtTreeSet.ofList (((old.entries ++ new.entries).filter fun e ↦
      old.rolesOf e ≠ new.rolesOf e).filter fun e ↦ was.contains e) compare ↔
      e ∈ was ∧ old.rolesOf e ≠ new.rolesOf e := by
  rw [ExtTreeSet.mem_ofList, contains_iff_mem, mem_filter, mem_filter, decide_eq_true_iff]
  refine ⟨fun h ↦ ⟨h.2, h.1.2⟩, fun h ↦ ⟨⟨?_, h.2⟩, h.1⟩⟩
  -- an entry with other roles is one of the sections'
  by_contra hnot
  rw [mem_append, not_or] at hnot
  exact h.2 (by rw [rolesOf_eq_empty hnot.1, rolesOf_eq_empty hnot.2])

theorem settles_iff :
    (((now.toList.all fun e ↦ was.contains e) && !(was.filter fun e ↦ !now.contains e).isEmpty &&
      decide (was.filter (fun e ↦ !now.contains e) = ExtTreeSet.ofList
        (((old.entries ++ new.entries).filter fun e ↦ old.rolesOf e ≠ new.rolesOf e).filter
          fun e ↦ was.contains e) compare)) = true) ↔ Settles was now old new := by
  rw [Bool.and_eq_true, Bool.and_eq_true, decide_eq_true_iff, all_eq_true, Bool.not_eq_true',
    isEmpty_eq_false_iff_exists]
  constructor
  · rintro ⟨⟨hsubset, e, he⟩, heq⟩
    refine ⟨fun e he ↦ ExtTreeSet.contains_iff_mem.mp (hsubset e (ExtTreeSet.mem_toList.mpr he)),
      ⟨e, mem_dropped.mp he⟩, fun e he ↦ ?_⟩
    have hmem : e ∈ was ∧ e ∉ now ↔ e ∈ was ∧ old.rolesOf e ≠ new.rolesOf e := by
      rw [← mem_dropped, heq, mem_changedListed]
    simpa [he] using hmem
  · rintro ⟨hsubset, ⟨e, he⟩, hchanged⟩
    refine ⟨⟨fun e he ↦ ExtTreeSet.contains_iff_mem.mpr
      (hsubset e (ExtTreeSet.mem_toList.mp he)), e, mem_dropped.mpr he⟩, ?_⟩
    refine ExtTreeSet.ext_mem fun e ↦ ?_
    rw [mem_dropped, mem_changedListed]
    exact and_congr_right (hchanged e)

/-- **The guard, entry by entry.** -/
theorem dropsOnlyEditedEntries_iff : dropsOnlyEditedEntries setting s p = true ↔
    ∃ was now old new, conflictsFromCanonical setting.parseJson s.conflicts = some was ∧
      conflictsFromCanonical setting.parseJson p.conflicts = some now ∧
      Section.fromCanonical setting.parseJson s.live = some old ∧
      Section.fromCanonical setting.parseJson p.live = some new ∧ Settles was now old new := by
  unfold dropsOnlyEditedEntries
  split
  · rename_i was now old new hwas hnow hold hnew
    rw [hwas, hnow, hold, hnew]
    refine settles_iff.trans ⟨fun h ↦ ⟨was, now, old, new, rfl, rfl, rfl, rfl, h⟩, ?_⟩
    rintro ⟨_, _, _, _, ⟨⟩, ⟨⟩, ⟨⟩, ⟨⟩, h⟩
    exact h
  · rename_i hnone
    refine ⟨nofun, ?_⟩
    rintro ⟨was, now, old, new, hwas, hnow, hold, hnew, -⟩
    exact absurd hnew (hnone was now old new hwas hnow hold)

/-! ### Agreement -/

/-- Every entry of a section that was edited is of the grammar, if one of the entries that changed
is: the edit is about one entry then, or adds none. -/
theorem grammatical_of_editSection {base live next changed}
    (h : editSection base live edit = .ok (some (next, changed)))
    (hlive : ∀ e ∈ live.entries, e.Grammatical) {e₀} (he₀ : e₀ ∈ changed)
    (hgrammar : e₀.Grammatical) : ∀ e ∈ next.entries, e.Grammatical := by
  have htarget : e₀ ∈ edit.targets := by
    by_contra hnot
    have hne := (mem_changed_of_editSection h).mp he₀
    rw [rolesOf_of_editSection h, if_neg hnot] at hne
    exact hne rfl
  intro e he
  obtain ⟨role, hrole⟩ := mem_entries.mp he
  rw [rolesOf_of_editSection h] at hrole
  split_ifs at hrole with hmem
  · cases edit with
    | contain target | bind name bound | unbind name =>
      obtain rfl := mem_singleton.mp hmem
      obtain rfl := mem_singleton.mp htarget
      exact hgrammar
    | releaseUid uid names =>
      exact hlive e (mem_entries.mpr ⟨role, (ExtTreeSet.mem_erase.mp hrole).2⟩)
  · exact hlive e (mem_entries.mpr ⟨role, hrole⟩)

/-- **The guard accepts what the writer wrote**, with an event. It reads the stored conflicts, and
the stored section if there is a conflict to settle. -/
theorem checkSync_of_applyEdit (hreader : ReadsBack setting.parseJson) {st : Stored}
    (hconflicts : conflictsFromCanonical setting.parseJson s.conflicts = some st.conflicts)
    (hlive : (∃ e, e ∈ st.conflicts) →
    Section.fromCanonical setting.parseJson s.live = some st.live) {edited : Edited}
    (happly : applyEdit st.base st.live st.conflicts edit = .ok (some edited))
    (hrule : t.rule = .baseKept) (hevents : t.syncEvents ≠ []) :
    checkSync setting t (some s)
      (some ⟨s.base, edited.live.canonical, conflictsCanonical edited.conflicts⟩) = .ok () := by
  obtain ⟨htext, hgrammar⟩ := of_conflictsFromCanonical hconflicts
  obtain ⟨changed, hsection, -⟩ := applyEdit_eq_ok happly
  refine (checkSync_baseKept hrule).mpr ⟨hevents, s, _, rfl, rfl, rfl, ?_⟩
  by_cases hdropped : ∃ e ∈ st.conflicts, e ∉ edited.conflicts
  · -- some conflict was settled, so its entry was read and the new section can be read
    obtain ⟨e, he, hnot⟩ := hdropped
    have hold := hlive ⟨e, he⟩
    refine .inr (dropsOnlyEditedEntries_iff.mpr ⟨st.conflicts, edited.conflicts, st.live,
      edited.live, hconflicts, ?_, hold, ?_, ?_⟩)
    · exact conflictsFromCanonical_canonical hreader fun e he ↦
        hgrammar e ((mem_conflicts_of_applyEdit happly).mp he).1
    · have hne : edited.live.rolesOf e ≠ st.live.rolesOf e := fun hsame ↦
        hnot ((mem_conflicts_of_applyEdit happly).mpr ⟨he, hsame⟩)
      obtain ⟨-, -, hrules, -⟩ := editSection_eq_ok hsection
      exact fromCanonical_canonical hreader hrules (grammatical_of_editSection hsection
        (of_fromCanonical hold).2 ((mem_changed_of_editSection hsection).mpr hne) (hgrammar e he))
    · refine ⟨fun e he ↦ ((mem_conflicts_of_applyEdit happly).mp he).1, ⟨e, he, hnot⟩,
        fun e he ↦ ?_⟩
      rw [mem_conflicts_of_applyEdit happly, and_iff_right he]
      exact ⟨fun hne heq ↦ hne heq.symm, fun hne heq ↦ hne heq.symm⟩
  · -- no conflict was settled, so the text is the stored one
    left
    have hsame : edited.conflicts = st.conflicts := ExtTreeSet.ext_mem fun e ↦
      ⟨fun he ↦ ((mem_conflicts_of_applyEdit happly).mp he).1,
        fun he ↦ not_not.mp fun hnot ↦ hdropped ⟨e, he, hnot⟩⟩
    show s.conflicts = conflictsCanonical edited.conflicts
    rw [hsame, htext]

/-- A proposed state that a live edit must not leave: another base, a new conflict, or a conflict
dropped whose entry kept its roles. -/
inductive Overreach (setting : Setting) (s p : SyncBase) : Prop
  | base (h : p.base ≠ s.base)
  | added (was now : EntrySet)
      (hwas : conflictsFromCanonical setting.parseJson s.conflicts = some was)
      (hnow : conflictsFromCanonical setting.parseJson p.conflicts = some now)
      (e : BindingEntry) (he : e ∈ now) (hnew : e ∉ was)
  | dropped (was now : EntrySet) (old new : Section)
      (hwas : conflictsFromCanonical setting.parseJson s.conflicts = some was)
      (hnow : conflictsFromCanonical setting.parseJson p.conflicts = some now)
      (hold : Section.fromCanonical setting.parseJson s.live = some old)
      (hnew : Section.fromCanonical setting.parseJson p.live = some new)
      (e : BindingEntry) (he : e ∈ was) (hgone : e ∉ now) (hsame : old.rolesOf e = new.rolesOf e)
  /-- The conflicts changed and one of the texts cannot be read. -/
  | unreadable (hne : p.conflicts ≠ s.conflicts)
      (h : conflictsFromCanonical setting.parseJson s.conflicts = none ∨
        conflictsFromCanonical setting.parseJson p.conflicts = none ∨
        Section.fromCanonical setting.parseJson s.live = none ∨
        Section.fromCanonical setting.parseJson p.live = none)

/-- **The guard refuses what no live edit may leave.** -/
theorem checkSync_ne_ok_of_overreach (h : Overreach setting s p) (hrule : t.rule = .baseKept) :
    checkSync setting t (some s) (some p) ≠ .ok () := by
  intro hok
  obtain ⟨-, _, _, ⟨⟩, ⟨⟩, hbase, hconflicts⟩ := (checkSync_baseKept hrule).mp hok
  cases h with
  | base hne => exact hne hbase.symm
  | added was now hwas hnow e he hnew =>
    rcases hconflicts with heq | hdrops
    · rw [heq, hnow] at hwas
      exact hnew (Option.some.inj hwas ▸ he)
    · obtain ⟨was', now', _, _, hwas', hnow', -, -, hsettles⟩ :=
        dropsOnlyEditedEntries_iff.mp hdrops
      cases hwas.symm.trans hwas'
      cases hnow.symm.trans hnow'
      exact hnew (hsettles.subset e he)
  | dropped was now old new hwas hnow hold hnew e he hgone hsame =>
    rcases hconflicts with heq | hdrops
    · rw [heq, hnow] at hwas
      exact hgone (Option.some.inj hwas ▸ he)
    · obtain ⟨was', now', old', new', hwas', hnow', hold', hnew', hsettles⟩ :=
        dropsOnlyEditedEntries_iff.mp hdrops
      cases hwas.symm.trans hwas'
      cases hnow.symm.trans hnow'
      cases hold.symm.trans hold'
      cases hnew.symm.trans hnew'
      exact (hsettles.changed e he).mp hgone hsame
  | unreadable hne h =>
    obtain ⟨_, _, _, _, hwas, hnow, hold, hnew, -⟩ :=
      dropsOnlyEditedEntries_iff.mp (hconflicts.resolve_left fun heq ↦ hne heq.symm)
    simp [hwas, hnow, hold, hnew] at h

/-- **The writer of live edits and the guard of the store agree.** In every state of a run the guard
accepts what an edit wrote, given an event; and it refuses what no edit may leave. -/
theorem live_edit_guard (hreader : ReadsBack setting.parseJson) :
    (∀ st edit edited t, ReadableRun setting.parseJson st →
      applyEdit st.base st.live st.conflicts edit = .ok (some edited) →
      t.rule = .baseKept → t.syncEvents ≠ [] →
      checkSync setting t (some (texts st))
        (some (texts ⟨st.base, edited.live, edited.conflicts⟩)) = .ok ()) ∧
    (∀ s p t, Overreach setting s p → t.rule = .baseKept →
      checkSync setting t (some s) (some p) ≠ .ok ()) := by
  refine ⟨fun st edit edited t hrun happly hrule hevents ↦ ?_, fun s p t h hrule ↦ ?_⟩
  · obtain ⟨hconflicts, hlive⟩ := read_texts_of_run hreader hrun
    exact checkSync_of_applyEdit hreader hconflicts hlive happly hrule hevents
  · exact checkSync_ne_ok_of_overreach h hrule

end Guard

/-- A file that makes `alice` a user. -/
def aliceUser : Bindings :=
  .read (.map [("user", .seq [.str "alice"])])
    (.ofList [("user", [BindingEntry.name "alice"])] compare) rfl

/-- The section with `alice` under some roles. -/
def aliceSection (roles : List String) : Section :=
  .present (.ofList (roles.map fun role ↦ (role, [BindingEntry.name "alice"])) compare)

/-- The state after `alice` was contained. -/
def aliceContained : Stored :=
  ⟨aliceSection ["admin"], aliceSection ["admin", "adversary"], ∅⟩

/-- The state after the file made `alice` a user, which is in conflict with that. -/
def aliceConflict : Stored := (merge (some aliceContained) (.ofBindings aliceUser)).stored

theorem fromCanonical_aliceSection {roles}
    (hentries : (aliceSection roles).entries = [.name "alice"])
    (hrules : checkRoles (aliceSection roles).roles? = .ok ()) :
    Section.fromCanonical canonicalReader (aliceSection roles).canonical =
      some (aliceSection roles) := by
  refine fromCanonical_canonical readsBack_canonicalReader hrules fun e he ↦ ?_
  rw [hentries, mem_singleton] at he
  subst he
  exact (rfl : nameFault "alice" = none)

theorem run_aliceConflict : ReadableRun canonicalReader aliceConflict := by
  have hstart : ReadableRun canonicalReader ⟨aliceSection ["admin"], aliceSection ["admin"], ∅⟩ :=
    .start aliceBindings
  have hread : storedSections canonicalReader (texts aliceContained) = some aliceContained :=
    storedSections_eq_some.mpr
      ⟨fromCanonical_aliceSection (by decide +kernel) (by decide +kernel),
        fromCanonical_aliceSection (by decide +kernel) (by decide +kernel),
        conflictsFromCanonical_canonical readsBack_canonicalReader fun e he ↦
          absurd he ExtTreeSet.not_mem_empty⟩
  have happly : applyEdit (aliceSection ["admin"]) (aliceSection ["admin"]) ∅
      (.contain (.name "alice")) = .ok (some ⟨aliceContained.live, ∅, []⟩) := by
    decide +kernel
  have hcontained : ReadableRun canonicalReader aliceContained :=
    .edit _ hstart happly (Option.isSome_iff_exists.mpr ⟨_, hread⟩)
  exact hcontained.merge aliceUser (by decide +kernel)

/-- A live edit that settles a conflict passes the guard. -/
theorem live_edit_guard_aliceConflict :
    BindingEntry.name "alice" ∈ aliceConflict.conflicts ∧
    ∃ edited, applyEdit aliceConflict.base aliceConflict.live aliceConflict.conflicts
        (.bind "alice" .guest) = .ok (some edited) ∧
      checkSync ⟨.plain, [], canonicalReader⟩ ⟨[], [], ["bind"], "operator", .baseKept⟩
        (some (texts aliceConflict))
        (some (texts ⟨aliceConflict.base, edited.live, edited.conflicts⟩)) = .ok () := by
  have happly : ((applyEdit aliceConflict.base aliceConflict.live aliceConflict.conflicts
      (.bind "alice" .guest)).toOption.bind id).isSome = true := by
    decide +kernel
  obtain ⟨edited, hedited⟩ := Option.isSome_iff_exists.mp happly
  obtain ⟨_, hsome, rfl⟩ := Option.bind_eq_some_iff.mp hedited
  have heq := Except.eq_ok_of_toOption hsome
  exact ⟨by decide +kernel, edited, heq, (@live_edit_guard ⟨.plain, [], canonicalReader⟩
    readsBack_canonicalReader).1 aliceConflict _ edited _ run_aliceConflict heq rfl
      (cons_ne_nil _ _)⟩

/-- The state after the uid that no reader accepts was contained too, and the file made `alice` a
user. -/
def unreadableConflict : Stored :=
  (merge (some ⟨aliceSection ["admin"], .present (.ofList [("admin", [BindingEntry.name "alice"]),
    ("adversary", [.name "alice", .uid 4294967295])] compare), ∅⟩) (.ofBindings aliceUser)).stored

theorem run_unreadableConflict : SyncRun (fun _ _ ↦ True) unreadableConflict := by
  have hstart : SyncRun (fun _ _ ↦ True) ⟨aliceSection ["admin"], aliceSection ["admin"], ∅⟩ :=
    .start aliceBindings
  have hname := @SyncRun.edit _ _ (.contain (.name "alice")) hstart
    ⟨aliceContained.live, ∅, []⟩ (by decide +kernel) trivial
  have huid := @SyncRun.edit _ _ (.contain (.uid 4294967295)) hname ⟨.present
    (.ofList [("admin", [BindingEntry.name "alice"]),
      ("adversary", [.name "alice", .uid 4294967295])] compare), ∅, []⟩ (by decide +kernel) trivial
  exact huid.merge aliceUser (by decide +kernel)

/-- In a state whose text cannot be read again the guard refuses an edit that settles a conflict. -/
theorem live_edit_refused_unreadable : ∃ st edit edited, SyncRun (fun _ _ ↦ True) st ∧
    applyEdit st.base st.live st.conflicts edit = .ok (some edited) ∧
      checkSync ⟨.plain, [], canonicalReader⟩ ⟨[], [], ["bind"], "operator", .baseKept⟩
        (some (texts st)) (some (texts ⟨st.base, edited.live, edited.conflicts⟩)) ≠ .ok () := by
  have hlive : Section.fromCanonical canonicalReader unreadableConflict.live.canonical = none := by
    refine Option.not_isSome_iff_eq_none.mp fun hsome ↦ ?_
    exact grammatical_of_fromCanonical_isSome readsBack_canonicalReader hsome (.uid 4294967295)
      (by decide +kernel) rfl
  exact ⟨unreadableConflict, .bind "alice" .guest, ⟨.present (.ofList
      [("user", []), ("guest", [BindingEntry.name "alice"]),
        ("adversary", [.name "alice", .uid 4294967295])] compare), ∅,
      [.resolved (.name "alice") .liveEdit]⟩, run_unreadableConflict, by decide +kernel,
    checkSync_ne_ok_of_overreach (.unreadable (by decide +kernel) (.inr (.inr (.inl hlive)))) rfl⟩

end Maknae.State
