import Maknae.State.StoreRules

/-!
# Transitions of the store

Reloads, accepts and live edits end in one function, `transition`. This file says what it does in
every run, however its writes go: what it wrote ahead (`WrotePart`), that it put the graph in place
after all of that and only then (`PutInPlace`), and that otherwise the store is as it was
(`LeftAlone`).

What the three entry points may change follows from the checks that were passed, and from reading
the new store back.
-/

namespace Maknae.State

open Job List Option Run StateGraph

/-! ### What is written ahead -/

/-- The records that a transition writes ahead, in order. -/
def Transition.records (t : Transition) (revision : UInt64) : List Record :=
  t.released.map (.released revision) ++ t.baselineEvents.map (.baseline revision) ++
    t.syncEvents.map (.sync revision) ++ [.intentTransition revision t.initiator]

/-- The world after some records were appended. -/
structure Appended (w₀ : World) (records : List Record) (w : World) : Prop where
  store_eq : w.store = w₀.store
  history_eq : w.history = w₀.history ++ records.map .appended
  floor_eq : w.floor = w₀.floor
  booted_eq : w.booted = w₀.booted

variable {w₀ w : World} {P : World → Prop} {E : Stop → World → Prop}

theorem Appended.of_same (h : w₀.Same w) : Appended w₀ [] w :=
  ⟨h.store_eq, by simpa using h.history_eq, h.floor_eq, h.booted_eq⟩

theorem framed_appended (w₀ : World) (records : List Record) : Framed (Appended w₀ records) :=
  fun _ _ hsame h ↦ ⟨hsame.store_eq.trans h.store_eq, hsame.history_eq.trans h.history_eq,
    hsame.floor_eq.trans h.floor_eq, hsame.booted_eq.trans h.booted_eq⟩

theorem Appended.append {records} (h : Appended w₀ records w) (r : Record) :
    Appended w₀ (records ++ [r]) (w.appended r) :=
  ⟨h.store_eq, by simp [World.appended, h.history_eq], h.floor_eq, h.booted_eq⟩

/-- A part of the plan was written. -/
def WrotePart (w₀ : World) (plan : List Record) (w : World) : Prop :=
  ∃ records, records <+: plan ∧ Appended w₀ records w

section WriteAhead

variable {w₀ : World} {plan records : List Record}

theorem triple_append_next {r} (h : records ++ [r] <+: plan) :
    Triple (Appended w₀ records) (append r) (fun _ ↦ Appended w₀ (records ++ [r]))
      fun _ ↦ WrotePart w₀ plan :=
  triple_append (framed_appended w₀ records)
    (fun _ _ _ hw ↦ ⟨records, (prefix_append _ _).trans h, hw⟩)
    fun _ hw ↦ ⟨hw.append r, fun _ _ ↦ ⟨_, h, hw.append r⟩⟩

variable {γ : Type} {f : γ → Record} {l : List γ}

/-- A list of records of one sort. -/
theorem triple_appendEach (h : records ++ l.map f <+: plan) :
    Triple (Appended w₀ records) (l.forM fun a ↦ append (f a))
      (fun _ ↦ Appended w₀ (records ++ l.map f)) fun _ ↦ WrotePart w₀ plan := by
  have hloop := triple_forM (E := fun _ ↦ WrotePart w₀ plan) (f := fun a ↦ append (f a)) (l := l)
    (P := fun before ↦ Appended w₀ (records ++ before.map f)) fun before a after hl ↦ ?_
  · simpa using hloop
  · have hbegins : (records ++ before.map f) ++ [f a] <+: plan := by
      refine List.IsPrefix.trans ?_ h
      rw [hl, map_append, ← append_assoc]
      exact (prefix_append_right_inj _).mpr (by simp)
    simpa using triple_append_next hbegins

theorem triple_onlyIf_appendEach (h : records ++ l.map f <+: plan) :
    Triple (Appended w₀ records) (onlyIf (!l.isEmpty) (l.forM fun a ↦ append (f a)))
      (fun _ ↦ Appended w₀ (records ++ l.map f)) fun _ ↦ WrotePart w₀ plan :=
  triple_onlyIf (fun _ ↦ triple_appendEach h) fun hempty w hw ↦ by
    obtain rfl : l = [] := by simpa using hempty
    simpa using hw

/-- The write-ahead appends its records in order, or stops on the way. -/
theorem triple_writeAhead (w₀ : World) (revision : UInt64) (t : Transition) :
    Triple (Appended w₀ []) (writeAhead revision t)
      (fun _ ↦ Appended w₀ (t.records revision)) fun _ ↦ WrotePart w₀ (t.records revision) := by
  have hreleased : [] ++ t.released.map (.released revision) <+: t.records revision := by
    simp [Transition.records]
  have hbaseline : [] ++ t.released.map (.released revision) ++
      t.baselineEvents.map (.baseline revision) <+: t.records revision := by
    simp [Transition.records]
  have hsync : [] ++ t.released.map (.released revision) ++
      t.baselineEvents.map (.baseline revision) ++ t.syncEvents.map (.sync revision) <+:
        t.records revision := by
    simp [Transition.records]
  refine (triple_onlyIf_appendEach hreleased).bind fun _ ↦
    (triple_onlyIf_appendEach hbaseline).bind fun _ ↦
      (triple_onlyIf_appendEach hsync).bind fun _ ↦ ?_
  exact triple_append_next (by simp [Transition.records])

end WriteAhead

/-! ### What is checked -/

/-- The layers of a store file, if it can be read. -/
def layersIn (setting : Setting) (store : Option (List UInt8)) : Option Extracted :=
  store.bind fun file ↦
    match decodeStore setting file with
    | .ok decoded => some decoded.extracted
    | .error _ => none

/-- The accepted baseline of the store. -/
def World.baseline (w : World) (setting : Setting) : Option BaselineLayer :=
  (layersIn setting w.store).bind Extracted.baseline

/-- The sync state of the store. -/
def World.sync (w : World) (setting : Setting) : Option SyncBase :=
  (layersIn setting w.store).bind Extracted.sync

/-- The checks that a transition passed. -/
structure Checked (setting : Setting) (next : Graph) (t : Transition) (proposed : Extracted)
    (w : World) : Prop where
  floor_lt : w.floor < next.revision
  extract_eq : Identity.extract next = .ok proposed
  recorded : unrecorded t (w.baseline setting) proposed.baseline = false
  sync_eq : checkSync setting t (w.sync setting) proposed.sync = .ok ()

theorem triple_storedLayers {setting} (hP : Framed P) (hE : ∀ e w, P w → E e w) :
    Triple P (storedLayers setting) (fun stored w ↦ layersIn setting w.store = stored ∧ P w) E := by
  refine (triple_readStore hP fun e w _ ↦ hE e w).bind fun file ↦ ?_
  cases file with
  | none => exact triple_pure fun w hw ↦ ⟨by rw [hw.1]; rfl, hw.2⟩
  | some file =>
    refine (triple_lift fun e w _ hw ↦ hE e w hw.2).bind fun decoded ↦ triple_pure fun w hw ↦ ?_
    obtain ⟨hdecoded, hstore, hPw⟩ := hw
    refine ⟨?_, hPw⟩
    rw [hstore, layersIn, bind_some, hdecoded]

theorem triple_checkTransition (setting : Setting) (next : Graph) (t : Transition) (hP : Framed P)
    (hE : ∀ e w, P w → E e w) :
    Triple P (checkTransition setting next t)
      (fun _ w ↦ P w ∧ ∃ proposed, Checked setting next t proposed w) E := by
  refine triple_state.bind fun w₀ ↦ ?_
  split_ifs with hfloor
  · exact triple_stop fun w hw ↦ hE _ w hw.2
  let P' : World → Prop := fun w ↦ w.floor = w₀.floor ∧ P w
  have hP' : Framed P' := framed_floor hP w₀.floor
  have hE' : ∀ e w, P' w → E e w := fun e w hw ↦ hE e w hw.2
  refine Triple.of_imp (P := P') ?_ fun w hw ↦ ⟨by rw [hw.1], hw.2⟩
  refine (triple_lift fun e w _ ↦ hE' e w).bind fun proposed ↦ ?_
  refine Triple.of_fact (fun _ hw ↦ reported_eq_ok.mp hw.1) fun hproposed ↦ ?_
  refine Triple.of_imp ?_ fun w hw ↦ hw.2
  refine (triple_storedLayers hP' hE').bind fun stored ↦ ?_
  split_ifs with hrecorded
  · exact triple_stop fun w hw ↦ hE' _ w hw.2
  refine (triple_lift fun e w _ hw ↦ hE' e w hw.2).mono (fun w hw ↦ hw) (fun u w hw ↦ ?_)
    fun _ _ he ↦ he
  obtain ⟨hsync, hstored, hfloor', hPw⟩ := hw
  refine ⟨hPw, proposed, ?_, hproposed, ?_, ?_⟩
  · rw [hfloor']
    exact UInt64.not_le.mp hfloor
  · rw [World.baseline, hstored]
    simpa using hrecorded
  · rw [World.sync, hstored]
    exact hsync

/-! ### The transition -/

/-- The store is as it was; at most a part of the records was written. -/
structure LeftAlone (t : Transition) (next : Graph) (w w' : World) : Prop where
  store_eq : w'.store = w.store
  history_eq : ∃ records, records <+: t.records next.revision ∧
    w'.history = w.history ++ records.map .appended

/-- What a graph in place is followed by: nothing, or the checkpoint of its file. -/
structure InPlace (setting : Setting) (t : Transition) (next : Graph) (w : World)
    (file : List UInt8) (w' : World) : Prop where
  store_eq : w'.store = some file
  history_eq : ∃ after, after <+: [Deed.appended
      (.checkpoint ⟨next.revision, setting.crypto.sha256 file⟩ "transitioned")] ∧
    w'.history = w.history ++ (t.records next.revision).map .appended ++
      .placed next file :: after

/-- The graph was put in place. Before that every check was passed and every record was appended
without an error; after that at most the checkpoint of the file was written. -/
structure PutInPlace (setting : Setting) (t : Transition) (next : Graph) (w : World)
    (file : List UInt8) (w' : World) : Prop extends InPlace setting t next w file w' where
  isSealed : Sealed setting next file
  written_ahead : ∃ w₁ w₂, checkTransition setting next t w = (.ok (), w₁) ∧
    writeAhead next.revision t w₁ = (.ok (), w₂) ∧
    w₂.history = w.history ++ (t.records next.revision).map .appended

/-- How a transition can go. An error leaves the store alone; the process can end either way. -/
def Effect (setting : Setting) (t : Transition) (next : Graph) (w : World) :
    Except Stop Committed × World → Prop
  | (.ok c, w') => ∃ file, c.digest = setting.crypto.sha256 file ∧
    PutInPlace setting t next w file w'
  | (.error (.failed _), w') => LeftAlone t next w w'
  | (.error .died, w') => LeftAlone t next w w' ∨ ∃ file, PutInPlace setting t next w file w'

theorem triple_caught {x : Run Unit} {Q : Option StoreError → World → Prop}
    (h : Triple P x (fun _ ↦ Q none) fun e w ↦ (∀ e', e = .failed e' → Q (some e') w) ∧
    (e = .died → E .died w)) : Triple P (caught x) Q E := by
  intro w hw
  rw [caught]
  rcases hrun : x w with ⟨(e | _) | u, w'⟩
  · exact (h.of_error hw hrun).1 e rfl
  · exact (h.of_error hw hrun).2 rfl
  · exact h.of_ok hw hrun

theorem framed_same (w : World) : Framed w.Same := fun _ _ h₁ h₀ ↦
  ⟨h₁.store_eq.trans h₀.store_eq, h₁.history_eq.trans h₀.history_eq,
    h₁.floor_eq.trans h₀.floor_eq, h₁.booted_eq.trans h₀.booted_eq⟩

section Effect

variable {setting : Setting} {next : Graph} {t : Transition} {w : World}

theorem WrotePart.leftAlone {w₁ w'} (hsame : w.Same w₁)
    (h : WrotePart w₁ (t.records next.revision) w') : LeftAlone t next w w' := by
  obtain ⟨records, hbegins, hrecords⟩ := h
  exact ⟨hrecords.store_eq.trans hsame.store_eq, records, hbegins,
    hrecords.history_eq.trans (by rw [hsame.history_eq])⟩

/-- From where everything is written ahead: the graph is put in place and checkpointed. -/
theorem triple_place (setting : Setting) {w₂ : World} (hw₂ : w₂.history = w.history ++
    (t.records next.revision).map .appended) :
    Triple w₂.Same
      (do
        let persisted ← persist setting next
        let checkpointError ← caught (checkpoint next.revision persisted.digest "transitioned")
        return (⟨next.revision, persisted.digest, persisted.durabilityError, checkpointError⟩ :
          Committed))
      (fun c v ↦ ∃ file, c.digest = setting.crypto.sha256 file ∧ Sealed setting next file ∧
        InPlace setting t next w file v)
      fun e v ↦ w₂.Same v ∨ e = .died ∧ ∃ file, Sealed setting next file ∧
        InPlace setting t next w file v := by
  refine (triple_persist (Q := fun p v ↦ ∃ file, p.digest = setting.crypto.sha256 file ∧
    Sealed setting next file ∧ v.store = some file ∧
      v.history = w₂.history ++ [.placed next file]) (framed_same w₂) (fun _ _ _ h ↦ .inl h)
    fun v file _ hv _ hsealed ↦ ?_).bind fun p ↦ ?_
  · exact ⟨file, rfl, hsealed, rfl, by simp [World.placed, hv.history_eq]⟩
  refine Triple.bind (triple_caught ?_)
    fun _ ↦ triple_pure fun _ hv ↦ hv
  -- whether the checkpoint lands or not, the graph is in place
  have hplaced : ∀ v, (∃ file, p.digest = setting.crypto.sha256 file ∧ Sealed setting next file ∧
      v.store = some file ∧ v.history = w₂.history ++ [.placed next file]) →
      ∃ file, p.digest = setting.crypto.sha256 file ∧ Sealed setting next file ∧
        InPlace setting t next w file v := by
    rintro v ⟨file, hdigest, hsealed, hstore, hhistory⟩
    exact ⟨file, hdigest, hsealed, hstore, [], nil_prefix, by rw [hhistory, hw₂]⟩
  refine triple_append ?_ (fun e v _ hv ↦ ?_) fun v hv ↦ ?_
  · rintro v v' hsame ⟨file, hdigest, hsealed, hstore, hhistory⟩
    exact ⟨file, hdigest, hsealed, hsame.store_eq.trans hstore, hsame.history_eq.trans hhistory⟩
  · obtain ⟨file, hdigest, hsealed, hin⟩ := hplaced v hv
    exact ⟨fun _ _ ↦ ⟨file, hdigest, hsealed, hin⟩, fun _ ↦ .inr ⟨rfl, file, hsealed, hin⟩⟩
  · obtain ⟨file, hdigest, hsealed, hstore, hhistory⟩ := hv
    have hin : InPlace setting t next w file (v.appended
        (.checkpoint ⟨next.revision, p.digest⟩ "transitioned")) := by
      refine ⟨hstore, _, prefix_rfl, ?_⟩
      rw [World.appended]
      simp [hhistory, hw₂, hdigest]
    exact ⟨⟨file, hdigest, hsealed, hin⟩, fun e _ ↦
      ⟨fun _ _ ↦ ⟨file, hdigest, hsealed, hin⟩, fun _ ↦ .inr ⟨rfl, file, hsealed, hin⟩⟩⟩

/-- **What a transition does, in every run.** -/
theorem effect_transition : Effect setting t next w (transition setting next t w) := by
  have hcheck := triple_checkTransition setting next t
    (framed_same w) fun _ _ h ↦ h
  have hstart : w.Same w := ⟨rfl, rfl, rfl, rfl⟩
  -- an early stop leaves the store alone, whatever its cause
  have hleft : ∀ e w', LeftAlone t next w w' → Effect setting t next w (.error e, w') := by
    rintro (e | _) w' h
    · exact h
    · exact .inl h
  rcases hrun₁ : checkTransition setting next t w with ⟨e | ⟨⟩, w₁⟩
  · rw [transition, bind_of_error hrun₁]
    have hsame := hcheck.of_error hstart hrun₁
    exact hleft e w₁ ⟨hsame.store_eq, [], nil_prefix, by simpa using hsame.history_eq⟩
  obtain ⟨hsame, -⟩ := hcheck.of_ok hstart hrun₁
  have hahead := triple_writeAhead w₁ next.revision t
  rcases hrun₂ : writeAhead next.revision t w₁ with ⟨e | ⟨⟩, w₂⟩
  · rw [transition, bind_of_ok hrun₁, bind_of_error hrun₂]
    exact hleft e w₂ ((hahead.of_error (.of_same ⟨rfl, rfl, rfl, rfl⟩) hrun₂).leftAlone hsame)
  have hall := hahead.of_ok (.of_same ⟨rfl, rfl, rfl, rfl⟩) hrun₂
  have hw₂ : w₂.history = w.history ++ (t.records next.revision).map .appended := by
    rw [hall.history_eq, hsame.history_eq]
  have hput : ∀ file w', Sealed setting next file → InPlace setting t next w file w' →
      PutInPlace setting t next w file w' := fun file w' hsealed hin ↦
    { hin with isSealed := hsealed, written_ahead := ⟨w₁, w₂, hrun₁, hrun₂, hw₂⟩ }
  rw [transition, bind_of_ok hrun₁, bind_of_ok hrun₂]
  have hrest := triple_place setting hw₂ w₂ ⟨rfl, rfl, rfl, rfl⟩
  split at hrest
  · rename_i c w' hrun
    obtain ⟨file, hdigest, hsealed, hin⟩ := hrest
    rw [hrun]
    exact ⟨file, hdigest, hput file w' hsealed hin⟩
  · rename_i e w' hrun
    rw [hrun]
    rcases hrest with hsame₂ | ⟨rfl, file, hsealed, hin⟩
    · refine hleft e w' ⟨?_, t.records next.revision, prefix_rfl, ?_⟩
      · rw [hsame₂.store_eq, hall.store_eq, hsame.store_eq]
      · rw [hsame₂.history_eq, hw₂]
    · exact .inr ⟨file, hput file w' hsealed hin⟩

end Effect

/-! ### What may change -/

section CheckSync

variable {setting : Setting} {t : Transition} {stored proposed : Option SyncBase}

theorem checkSync_unchanged (hrule : t.rule = .unchanged) :
    checkSync setting t stored proposed = .ok () ↔ proposed = stored := by
  unfold checkSync
  rw [hrule]
  dsimp only
  split_ifs with hne
  · exact ⟨nofun, fun heq ↦ absurd heq hne⟩
  · exact ⟨fun _ ↦ not_not.mp hne, fun _ ↦ rfl⟩

/-- What the rule of a live edit asks. -/
theorem checkSync_baseKept (hrule : t.rule = .baseKept) :
    checkSync setting t stored proposed = .ok () ↔ t.syncEvents ≠ [] ∧
      ∃ s s', stored = some s ∧ proposed = some s' ∧ s.base = s'.base ∧
        (s.conflicts = s'.conflicts ∨ dropsOnlyEditedEntries setting s s' = true) := by
  unfold checkSync
  rw [hrule]
  dsimp only
  split_ifs with hevents
  · exact ⟨nofun, fun h ↦ absurd (isEmpty_iff.mp hevents) h.1⟩
  · have hevents' : t.syncEvents ≠ [] := fun h ↦ hevents (isEmpty_iff.mpr h)
    cases stored with
    | none => exact ⟨nofun, fun ⟨_, _, _, hs, _⟩ ↦ nomatch hs⟩
    | some s =>
      cases proposed with
      | none => exact ⟨nofun, fun ⟨_, _, _, _, hs', _⟩ ↦ nomatch hs'⟩
      | some s' =>
        dsimp only
        split_ifs with hsame hdrops
        · exact ⟨fun _ ↦ ⟨hevents', s, s', rfl, rfl, hsame.1, .inl hsame.2⟩, fun _ ↦ rfl⟩
        · exact ⟨fun _ ↦ ⟨hevents', s, s', rfl, rfl, hdrops.1, .inr hdrops.2⟩, fun _ ↦ rfl⟩
        · refine ⟨nofun, ?_⟩
          rintro ⟨-, _, _, hs, hs', hbase, hagree⟩
          cases hs
          cases hs'
          rcases hagree with hconflicts | hedited
          · exact absurd ⟨hbase, hconflicts⟩ hsame
          · exact absurd ⟨hbase, hedited⟩ hdrops

end CheckSync

section Confined

variable {setting : Setting} {next : Graph} {t : Transition} {w w' : World} {c : Committed}

variable {proposed : Extracted}

theorem Checked.of_same {w₁} (hsame : w.Same w₁) (h : Checked setting next t proposed w₁) :
    Checked setting next t proposed w := by
  obtain ⟨hfloor, hextract, hrecorded, hsync⟩ := h
  rw [World.baseline, hsame.store_eq] at hrecorded
  rw [World.sync, hsame.store_eq] at hsync
  exact ⟨hsame.floor_eq ▸ hfloor, hextract, hrecorded, hsync⟩

/-- A transition that ends well passed its checks, and the new store holds what was proposed. -/
theorem checked_of_transition (hcrypto : setting.crypto.Lawful) (hnext : KernelGraph next)
    (h : transition setting next t w = (.ok c, w')) :
    ∃ proposed, Checked setting next t proposed w ∧ w'.baseline setting = proposed.baseline ∧
      w'.sync setting = proposed.sync := by
  have heffect : Effect setting t next w (transition setting next t w) := effect_transition
  rw [h] at heffect
  obtain ⟨file, -, hput⟩ := heffect
  obtain ⟨w₁, w₂, hrun, -, -⟩ := hput.written_ahead
  obtain ⟨hsame, proposed, hchecked⟩ := (triple_checkTransition setting next t
    (framed_same w) fun _ _ h ↦ h).of_ok ⟨rfl, rfl, rfl, rfl⟩ hrun
  have hlayers : layersIn setting w'.store = some proposed := by
    rw [hput.store_eq, layersIn, bind_some,
      decodeStore_of_seal hcrypto hnext hchecked.extract_eq hput.isSealed]
  refine ⟨proposed, hchecked.of_same hsame, ?_, ?_⟩
  · rw [World.baseline, hlayers, bind_some]
  · rw [World.sync, hlayers, bind_some]

/-- Without a record of it, the baseline does not change. -/
theorem Checked.baseline_eq (h : Checked setting next t proposed w)
    (hevents : t.baselineEvents = []) : proposed.baseline = w.baseline setting := by
  have hrecorded := h.recorded
  rw [unrecorded, hevents] at hrecorded
  simpa using hrecorded

theorem Checked.baseline_isSome (h : Checked setting next t proposed w)
    (hstored : (w.baseline setting).isSome) : proposed.baseline.isSome := by
  by_cases hevents : t.baselineEvents = []
  · rw [h.baseline_eq hevents]
    exact hstored
  · have hrecorded := h.recorded
    rw [unrecorded, if_neg (by simpa using hevents)] at hrecorded
    exact isSome_iff_ne_none.mpr fun hnone ↦ by simp [hnone] at hrecorded

/-- **Transitions are written ahead, atomic and confined.** In every run the graph is put in place
after its records and before its checkpoint, and an error leaves the store alone. An accept keeps
the sync state and does not drop the baseline, reloads and live edits keep the baseline, a live edit
keeps the base of the sync and is recorded, and no baseline changes without a record. -/
theorem transition_write_ahead (hcrypto : setting.crypto.Lawful) (hnext : KernelGraph next)
    (w : World) :
    (∀ t, Effect setting t next w (transition setting next t w)) ∧
    (∀ t c w', transition setting next t w = (.ok c, w') →
      w'.baseline setting ≠ w.baseline setting → t.baselineEvents ≠ []) ∧
    (∀ events c w', commitAccept setting next events w = (.ok c, w') →
      w'.sync setting = w.sync setting ∧
        ((w.baseline setting).isSome → (w'.baseline setting).isSome)) ∧
    (∀ released events initiator c w',
      commit setting next released events initiator w = (.ok c, w') →
        w'.baseline setting = w.baseline setting) ∧
    (∀ released events initiator c w',
      commitLive setting next released events initiator w = (.ok c, w') →
        w'.baseline setting = w.baseline setting ∧ events ≠ [] ∧
          ∃ s s', w.sync setting = some s ∧ w'.sync setting = some s' ∧ s'.base = s.base) := by
  refine ⟨fun t ↦ effect_transition, fun t c w' h hne hevents ↦ ?_, fun events c w' h ↦ ?_,
    fun released events initiator c w' h ↦ ?_, fun released events initiator c w' h ↦ ?_⟩
  · obtain ⟨proposed, hchecked, hbaseline, -⟩ := checked_of_transition hcrypto hnext h
    exact hne (hbaseline.trans (hchecked.baseline_eq hevents))
  · obtain ⟨proposed, hchecked, hbaseline, hsync⟩ := checked_of_transition hcrypto hnext h
    exact ⟨hsync.trans ((checkSync_unchanged rfl).mp hchecked.sync_eq),
      fun hstored ↦ hbaseline ▸ hchecked.baseline_isSome hstored⟩
  · obtain ⟨proposed, hchecked, hbaseline, -⟩ := checked_of_transition hcrypto hnext h
    exact hbaseline.trans (hchecked.baseline_eq rfl)
  · obtain ⟨proposed, hchecked, hbaseline, hsync⟩ := checked_of_transition hcrypto hnext h
    obtain ⟨hevents, s, s', hs, hs', hbase, -⟩ := (checkSync_baseKept rfl).mp hchecked.sync_eq
    exact ⟨hbaseline.trans (hchecked.baseline_eq rfl), hevents, s, s', hs, hsync.trans hs',
      hbase.symm⟩

end Confined

/-- A setting with the plain provider. -/
def Setting.plain : Setting := ⟨.plain, replicate keyLen 0, fun _ ↦ none⟩

/-- An operation that is done, with the random bytes it needs. -/
def Chance.fine : Chance :=
  ⟨.done, "", ⟨some (.replicate 32 0), some (.replicate 12 0), some (.replicate 12 0)⟩⟩

/-- A boot with bindings that bind nobody. -/
def BootInputs.bare : BootInputs where
  compiled := ⟨[]⟩
  vocabularySha256 := .replicate 32 0
  identity := ⟨"/b", "U", some (.replicate 32 1), [], ∅⟩
  unresolvedAdversaries := []
  bindingsMissing := false
  bindingsListsNobody := true
  baseline := ⟨.ofList [("core", "[]")] compare, "/c", "U", .replicate 32 0, none⟩
  acceptedSeen := none
  baselineEvents := ["first"]
  sync := ⟨"\x7b\x7d", "\x7b\x7d", "[]"⟩
  syncSeen := none
  syncEvents := []
  syncKind := .created

/-- A first boot, up to its checkpoint, of a process that goes on as `rest` says. -/
def seedingBoot (rest : List Chance) : Except Stop BootReport × World :=
  boot .plain none 0 .bare (.fresh .absent (replicate 7 .fine ++ rest))

/-- The world after it. -/
def seededWorld (rest : List Chance) : World :=
  { (seedingBoot rest).2 with booted := (seedingBoot rest).1.isOk }

/-- The graph of a live edit that contains a uid. -/
def containingBuild : Outcome IdentityError Graph :=
  Identity.build BootInputs.bare.identity (some BootInputs.bare.baseline)
    (some ⟨"\x7b\x7d", "\x7b\"adversary\":[\x7b\"uid\":7\x7d]\x7d", "[]"⟩) ⟨[]⟩ (.replicate 32 0) 2
    .operator

def containingGraph : Graph := containingBuild.toOption.get (by decide +kernel)

def containingWorld : World := seededWorld (replicate 8 .fine)

def containingRun : Except Stop Committed × World :=
  commitLive .plain containingGraph [] ["contain"] .operator containingWorld

theorem containingRun_ok :
    containingRun.1.toOption.any fun c ↦ c.revision = 2 ∧ c.checkpointError = none := by
  decide +kernel

/-- A live edit goes through: it is recorded, put in place and checkpointed, and keeps the baseline
and the base of the sync. -/
theorem transition_write_ahead_contain :
    ∃ c w', containingRun = (.ok c, w') ∧ c.revision = 2 ∧ c.checkpointError = none ∧
      (∃ file, PutInPlace .plain ⟨[], [], ["contain"], "operator", .baseKept⟩ containingGraph
        containingWorld file w') ∧
      w'.baseline .plain = containingWorld.baseline .plain ∧
      ∃ s s', containingWorld.sync .plain = some s ∧ w'.sync .plain = some s' ∧
        s'.base = s.base := by
  have hbuild : containingBuild = .ok containingGraph :=
    Except.eq_ok_of_toOption (some_get _).symm
  obtain ⟨⟨b, hspace, -, hgraph⟩, -⟩ := exists_written hbuild
  have hnext : KernelGraph containingGraph := ⟨b, ⟨[]⟩, hspace, hgraph⟩
  have hok := containingRun_ok
  unfold containingRun at hok ⊢
  -- from here on nothing is evaluated
  generalize containingWorld = w at hok ⊢
  generalize containingGraph = next at hok hnext ⊢
  obtain ⟨heffect, -, -, -, hlive⟩ :=
    @transition_write_ahead .plain next Crypto.plain_lawful hnext w
  rcases hrun : commitLive .plain next [] ["contain"] .operator w with ⟨e | c, w'⟩
  · rw [hrun] at hok
    cases hok
  rw [hrun] at hok
  have hok : c.revision = 2 ∧ c.checkpointError = none := of_decide_eq_true hok
  obtain ⟨hbaseline, -, hsync⟩ := hlive _ _ _ c w' hrun
  have heffect := heffect ⟨[], [], ["contain"], "operator", .baseKept⟩
  rw [show transition .plain next ⟨[], [], ["contain"], "operator", .baseKept⟩ w = _ from hrun]
    at heffect
  obtain ⟨file, -, hput⟩ := heffect
  exact ⟨c, w', rfl, hok.1, hok.2, ⟨file, hput⟩, hbaseline, hsync⟩

end Maknae.State
