import Maknae.State.Transition

/-!
# The rollback anchor over whole runs

A boot refuses a store that is behind the newest checkpoint of the trail, or that has other bytes at
its revision. For that to be useful two things must hold. The daemon must never refuse a store of
its own, however its writes went and wherever it was stopped. And a store that was put back must be
refused.

The first is an invariant of the history of a state directory, `Anchored`: revisions of the stores
that were put in place increase, and every checkpoint is that of the store in place when it was
written. `Sound` ties the disk and the process to the history. One lemma per operation shows that it
keeps the invariant wherever it stops; `sound_of_reachable` puts them together over any sequence of
boots, commits, restarts and records of others.

A reseed is where the argument needs more than the order of the writes. It takes the next revision
after that of the store, so the store must be readable: a store the daemon wrote decodes to the
graph it was written from.
-/

namespace Maknae.State

open Except Job List Option Run StateGraph

/-! ### History -/

/-- The stores that were put in place, in order. -/
def placements (history : List Deed) : List (Graph × List UInt8) :=
  history.filterMap fun
    | .placed g file => some (g, file)
    | .appended _ => none

/-- The checkpoints of the trail, in order. -/
def checkpoints (history : List Deed) : List Checkpoint :=
  history.filterMap fun
    | .appended (.checkpoint c _) => some c
    | _ => none

/-- The store in place. -/
def lastPlaced (history : List Deed) : Option (Graph × List UInt8) := (placements history).getLast?

/-- The newest checkpoint. -/
def lastCheckpoint (history : List Deed) : Option Checkpoint := (checkpoints history).getLast?

/-- The checkpoint of a store. -/
def checkpointOf (crypto : Crypto) (p : Graph × List UInt8) : Checkpoint :=
  ⟨p.1.revision, crypto.sha256 p.2⟩

@[simp] theorem placements_append (h h' : List Deed) :
    placements (h ++ h') = placements h ++ placements h' := filterMap_append

@[simp] theorem checkpoints_append (h h' : List Deed) :
    checkpoints (h ++ h') = checkpoints h ++ checkpoints h' := filterMap_append

/-- Revisions increase, and every checkpoint is that of the store in place when it was written. -/
inductive Anchored (crypto : Crypto) : List Deed → Prop
  | nil : Anchored crypto []
  | placed {history : List Deed} {g : Graph} {file : List UInt8} (h : Anchored crypto history)
      (hlast : ∀ p, lastPlaced history = some p → p.1.revision < g.revision) :
      Anchored crypto (history ++ [.placed g file])
  | appended {history : List Deed} {r : Record} (h : Anchored crypto history)
      (hr : ∀ c anchor, r = .checkpoint c anchor →
        ∃ p, lastPlaced history = some p ∧ c = checkpointOf crypto p) :
      Anchored crypto (history ++ [.appended r])

section History

variable {history : List Deed}

@[simp] theorem lastPlaced_placed (g : Graph) (file : List UInt8) :
    lastPlaced (history ++ [.placed g file]) = some (g, file) := by
  simp [lastPlaced, placements]

@[simp] theorem lastPlaced_appended (r : Record) :
    lastPlaced (history ++ [.appended r]) = lastPlaced history := by
  simp [lastPlaced, placements]

theorem checkpoints_placed (g : Graph) (file : List UInt8) :
    checkpoints (history ++ [.placed g file]) = checkpoints history := by
  simp [checkpoints]

theorem mem_checkpoints_appended {r c}
    (h : c ∈ checkpoints (history ++ [.appended r])) :
    c ∈ checkpoints history ∨ ∃ anchor, r = .checkpoint c anchor := by
  rw [checkpoints_append, mem_append] at h
  refine h.imp_right fun hc ↦ ?_
  cases r <;> simp_all [checkpoints]

/-- The end of a list, at a place in it. -/
theorem eq_or_exists_of_concat_eq {α : Type} {l before after : List α} {a b}
    (h : l ++ [a] = before ++ b :: after) :
    (before = l ∧ b = a) ∨ ∃ after', l = before ++ b :: after' := by
  rcases eq_nil_or_concat after with rfl | ⟨after', a', rfl⟩
  · obtain ⟨rfl, heq⟩ := append_inj' h rfl
    exact .inl ⟨rfl, (singleton_inj.mp heq).symm⟩
  · refine .inr ⟨after', ?_⟩
    rw [concat_eq_append, ← cons_append, ← append_assoc] at h
    exact (append_inj' h rfl).1

theorem le_last_of_pairwise {l : List (Graph × List UInt8)}
    (h : l.Pairwise fun p q ↦ p.1.revision < q.1.revision) {p q : Graph × List UInt8}
    (hlast : l.getLast? = some q) (hp : p ∈ l) : p.1.revision ≤ q.1.revision := by
  obtain ⟨init, rfl⟩ := getLast?_eq_some_iff.mp hlast
  rcases mem_append.mp hp with hp | hp
  · exact UInt64.le_of_lt ((pairwise_append.mp h).2.2 p hp q (mem_singleton_self q))
  · rw [mem_singleton.mp hp]
    exact UInt64.le_refl _

end History

namespace Anchored

variable {crypto : Crypto} {history : List Deed}

/-- **Revisions increase.** -/
theorem increasing (h : Anchored crypto history) :
    (placements history).Pairwise fun p q ↦ p.1.revision < q.1.revision := by
  induction h with
  | nil => exact .nil
  | @placed history g file h hlast ih =>
    rw [placements_append]
    refine pairwise_append.mpr ⟨ih, pairwise_singleton _ _, fun p hp q hq ↦ ?_⟩
    obtain rfl : q = (g, file) := by simpa [placements] using hq
    obtain ⟨last, hlast'⟩ : ∃ last, lastPlaced history = some last :=
      ⟨_, getLast?_eq_some_getLast (ne_nil_of_mem hp)⟩
    exact UInt64.lt_of_le_of_lt (le_last_of_pairwise ih hlast' hp) (hlast last hlast')
  | @appended history r h hr ih =>
    simpa [placements] using ih

variable {before after : List Deed} {c : Checkpoint}

/-- **Every checkpoint is that of a store put in place before it.** -/
theorem exists_placed (h : Anchored crypto history) {anchor}
    (heq : history = before ++ .appended (.checkpoint c anchor) :: after) :
    ∃ p ∈ placements before, c = checkpointOf crypto p := by
  induction h generalizing after with
  | nil => simp at heq
  | placed h hlast ih =>
    rcases eq_or_exists_of_concat_eq heq with ⟨-, heq⟩ | ⟨after', heq⟩
    · cases heq
    · exact ih heq
  | appended h hr ih =>
    rcases eq_or_exists_of_concat_eq heq with ⟨rfl, heq'⟩ | ⟨after', heq⟩
    · obtain ⟨p, hp, hc⟩ := hr c anchor (Deed.appended.inj heq').symm
      exact ⟨p, mem_of_getLast? hp, hc⟩
    · exact ih heq

theorem exists_placed_of_mem (h : Anchored crypto history) (hc : c ∈ checkpoints history) :
    ∃ p ∈ placements history, c = checkpointOf crypto p := by
  obtain ⟨deed, hdeed, hcheckpoint⟩ := mem_filterMap.mp hc
  obtain ⟨before, after, rfl⟩ := append_of_mem hdeed
  obtain ⟨anchor, rfl⟩ : ∃ anchor, deed = .appended (.checkpoint c anchor) := by
    split at hcheckpoint
    · exact ⟨_, by rw [some.inj hcheckpoint]⟩
    · cases hcheckpoint
  obtain ⟨p, hp, hcp⟩ := h.exists_placed rfl
  exact ⟨p, by simp [hp], hcp⟩

/-- The store in place is not behind any checkpoint, and has its digest at its revision. -/
theorem le_of_mem_checkpoints (h : Anchored crypto history) (hc : c ∈ checkpoints history) :
    ∃ p, lastPlaced history = some p ∧
      c.revision ≤ p.1.revision ∧ (c.revision = p.1.revision → c.digest = crypto.sha256 p.2) := by
  induction h with
  | nil => cases hc
  | placed h hlast ih =>
    rw [checkpoints_placed] at hc
    obtain ⟨p, hp, hle, -⟩ := ih hc
    have hlt := UInt64.lt_of_le_of_lt hle (hlast p hp)
    exact ⟨_, lastPlaced_placed _ _, UInt64.le_of_lt hlt,
      fun heq ↦ absurd heq (UInt64.ne_of_lt hlt)⟩
  | appended h hr ih =>
    rw [lastPlaced_appended]
    rcases mem_checkpoints_appended hc with hc | ⟨anchor, hr'⟩
    · exact ih hc
    · obtain ⟨p, hp, rfl⟩ := hr c anchor hr'
      exact ⟨p, hp, UInt64.le_refl _, fun _ ↦ rfl⟩

/-- Checkpoints are in the order of their revisions. -/
theorem checkpoints_le (h : Anchored crypto history) :
    (checkpoints history).Pairwise fun c d ↦ c.revision ≤ d.revision := by
  induction h with
  | nil => exact .nil
  | placed h hlast ih =>
    rw [checkpoints_placed]
    exact ih
  | @appended history r h hr ih =>
    rw [checkpoints_append]
    refine pairwise_append.mpr ⟨ih, ?_, fun c hc d hd ↦ ?_⟩
    · cases r <;> simp [checkpoints]
    · obtain ⟨anchor, rfl⟩ : ∃ anchor, r = .checkpoint d anchor := by
        cases r <;> simp_all [checkpoints]
      obtain ⟨p, hp, rfl⟩ := hr d anchor rfl
      obtain ⟨q, hq, hle, -⟩ := h.le_of_mem_checkpoints hc
      cases hp.symm.trans hq
      exact hle

/-- Wherever the trail was cut in two, the newer of the last checkpoints is the newest. -/
theorem newer_eq (h : Anchored crypto (before ++ after)) :
    newer (lastCheckpoint before) (lastCheckpoint after) = lastCheckpoint (before ++ after) := by
  have hle := h.checkpoints_le
  rw [checkpoints_append, pairwise_append] at hle
  rw [lastCheckpoint, lastCheckpoint, lastCheckpoint, checkpoints_append, getLast?_append]
  cases hafter : (checkpoints after).getLast? with
  | none => cases (checkpoints before).getLast? <;> rfl
  | some y =>
    cases hbefore : (checkpoints before).getLast? with
    | none => rfl
    | some x =>
      have hxy := hle.2.2 x (mem_of_getLast? hbefore) y (mem_of_getLast? hafter)
      rw [newer, if_neg (UInt64.not_lt.mpr hxy)]
      rfl

end Anchored

/-! ### Stores the daemon wrote -/

/-- A graph of layers that can be read back. -/
def Built (g : Graph) : Prop :=
  ∃ layer baseline sync compiled vocabularySha256 revision initiator,
    Readable layer baseline sync ∧
      Identity.build layer baseline sync compiled vocabularySha256 revision initiator = .ok g

/-- The layers of a store that was read can be written again. -/
def Decoded.Readable (d : Decoded) : Prop :=
  StateGraph.Readable d.extracted.layer d.extracted.baseline d.extracted.sync

/-- **A store of the daemon's decodes to its graph.** -/
theorem exists_decoded {setting} (hcrypto : setting.crypto.Lawful)
    {p : Graph × List UInt8} (hbuilt : Built p.1) (hsealed : Sealed setting p.1 p.2) :
    ∃ d, decodeStore setting p.2 = .ok d ∧ d.Readable ∧
      d.facts = ⟨p.1.revision, setting.crypto.sha256 p.2⟩ := by
  obtain ⟨layer, baseline, sync, compiled, digest, revision, initiator, hread, hbuild⟩ := hbuilt
  obtain ⟨⟨b, hspace, -, hgraph⟩, -⟩ := exists_written hbuild
  refine ⟨_, decodeStore_of_seal hcrypto ⟨b, compiled, hspace, hgraph⟩ (extract_build hread hbuild)
    hsealed, ?_, rfl⟩
  exact ⟨hread.absolute, hread.ceiling_ne, hread.explicit_eq⟩

/-! ### The invariant -/

/-- The disk and the process agree with the history. -/
structure Sound (setting : Setting) (w : World) : Prop where
  anchored : Anchored setting.crypto w.history
  store_eq : w.store = (lastPlaced w.history).map Prod.snd
  built : ∀ p, lastPlaced w.history = some p → Built p.1 ∧ Sealed setting p.1 p.2
  floor_eq : w.booted = true → ∀ p, lastPlaced w.history = some p → w.floor = p.1.revision

/-- A sound world, with what is in place and what the process knows of it. -/
structure At (setting : Setting) (booted : Bool) (last : Option (Graph × List UInt8))
    (floor : UInt64) (w : World) : Prop extends Sound setting w where
  booted_eq : w.booted = booted
  last_eq : lastPlaced w.history = last
  floor_is : w.floor = floor

section Sound

variable {setting : Setting} {booted : Bool} {last : Option (Graph × List UInt8)} {floor : UInt64}

theorem framed_sound : Framed (Sound setting) := by
  intro w w' hsame h
  refine ⟨hsame.history_eq ▸ h.anchored, ?_, ?_, ?_⟩
  · rw [hsame.store_eq, hsame.history_eq, h.store_eq]
  · rw [hsame.history_eq]
    exact h.built
  · rw [hsame.history_eq, hsame.booted_eq, hsame.floor_eq]
    exact h.floor_eq

theorem framed_at : Framed (At setting booted last floor) := fun w w' hsame h ↦
  { framed_sound w w' hsame h.toSound with
    booted_eq := hsame.booted_eq.trans h.booted_eq
    last_eq := hsame.history_eq ▸ h.last_eq
    floor_is := hsame.floor_eq.trans h.floor_is }

variable {w : World} {r : Record} {g : Graph} {anchor : String} {p : Graph × List UInt8}
  {inputs : BootInputs} {sync : Option SyncBase} {baseline : Option BaselineLayer}
  {revision : UInt64} {decoded : Decoded} {plan : LoadPlan} {digest : Digest} {report : BootReport}

/-- A record that is not a checkpoint changes nothing that matters. -/
theorem At.appended (h : At setting booted last floor w)
    (hr : ∀ c anchor, r = .checkpoint c anchor → ∃ p, last = some p ∧
    c = checkpointOf setting.crypto p) : At setting booted last floor (w.appended r) where
  anchored := h.anchored.appended (by rw [h.last_eq]; exact hr)
  store_eq := by
    rw [World.appended, lastPlaced_appended]
    exact h.store_eq
  built := by
    rw [World.appended, lastPlaced_appended]
    exact h.built
  floor_eq := by
    rw [World.appended, lastPlaced_appended]
    exact h.floor_eq
  booted_eq := h.booted_eq
  last_eq := by
    rw [World.appended, lastPlaced_appended]
    exact h.last_eq
  floor_is := h.floor_is

theorem At.placed (h : At setting booted last floor w) {file} (hbuilt : Built g)
    (hsealed : Sealed setting g file) (hlast : ∀ p, last = some p → p.1.revision < g.revision) :
    At setting booted (some (g, file)) g.revision (w.placed g file) where
  anchored := h.anchored.placed (by rw [h.last_eq]; exact hlast)
  store_eq := by simp [World.placed]
  built := by
    intro p hp
    obtain rfl : (g, file) = p := by simpa [World.placed] using hp
    exact ⟨hbuilt, hsealed⟩
  floor_eq := by
    intro _ p hp
    obtain rfl : (g, file) = p := by simpa [World.placed] using hp
    rfl
  booted_eq := h.booted_eq
  last_eq := by simp [World.placed]
  floor_is := rfl

/-! ### Operations -/

/-- How a run ends early: the invariant holds, and it is not the anchor that refuses the store. -/
def Halted (setting : Setting) (e : Stop) (w : World) : Prop := Sound setting w ∧ e.Fair

theorem At.halted (e : Stop) (w : World) (he : e.Fair) (h : At setting booted last floor w) :
    Halted setting e w :=
  ⟨h.toSound, he⟩

theorem at_append (hr : ∀ c anchor, r = .checkpoint c anchor → ∃ p, last = some p ∧
    c = checkpointOf setting.crypto p) :
    Triple (At setting booted last floor) (append r) (fun _ ↦ At setting booted last floor)
      (Halted setting) :=
  triple_append framed_at At.halted fun _ h ↦
    ⟨h.appended hr, fun e he ↦ (h.appended hr).halted e _ he⟩

theorem at_appendEach {γ : Type} {f : γ → Record} {l : List γ}
    (hf : ∀ a c anchor, f a ≠ .checkpoint c anchor) :
    Triple (At setting booted last floor) (l.forM fun a ↦ append (f a))
      (fun _ ↦ At setting booted last floor) (Halted setting) :=
  triple_forM (P := fun _ ↦ At setting booted last floor) fun _ a _ _ ↦
    at_append fun c anchor h ↦ absurd h (hf a c anchor)

theorem at_onlyIf {c} {x : Run Unit}
    (h : Triple (At setting booted last floor) x (fun _ ↦ At setting booted last floor)
      (Halted setting)) :
    Triple (At setting booted last floor) (onlyIf c x) (fun _ ↦ At setting booted last floor)
      (Halted setting) :=
  triple_onlyIf (fun _ ↦ h) fun _ _ hw ↦ hw

theorem at_checkpoint :
    Triple (At setting booted (some p) floor)
      (checkpoint p.1.revision (setting.crypto.sha256 p.2) anchor)
      (fun _ ↦ At setting booted (some p) floor) (Halted setting) :=
  at_append fun _ _ h ↦ ⟨p, rfl, (Record.checkpoint.inj h).1.symm⟩

theorem at_persist (hbuilt : Built g)
    (hlast : ∀ p, last = some p → floor < g.revision → p.1.revision < g.revision) :
    Triple (At setting booted last floor) (persist setting g)
      (fun persisted w ↦ ∃ file, persisted.digest = setting.crypto.sha256 file ∧
        At setting booted (some (g, file)) g.revision w) (Halted setting) :=
  triple_persist framed_at At.halted fun _ file _ h hfloor hsealed ↦
    ⟨file, rfl, h.placed hbuilt hsealed fun p hp ↦ hlast p hp (h.floor_is ▸ hfloor)⟩

/-! ### What a plan is refused for -/

section Fair

variable (setting : Setting) (inputs : BootInputs)

theorem fairOutcome_buildGraph (layer : IdentityLayer) (baseline : Option BaselineLayer)
    (sync : Option SyncBase) (revision : UInt64) (initiator : ProvenanceKind) :
    FairOutcome (buildGraph inputs layer baseline sync revision initiator) :=
  fairOutcome_mapError fun _ ↦ nofun

/-- The last revision is the one thing a plan is refused for. -/
theorem fairOutcome_nextRevision (revision : UInt64) : FairOutcome (nextRevision revision) := by
  rw [nextRevision]
  split
  · exact fairOutcome_ok _
  · refine fairOutcome_fail fun reason h ↦ ?_
    obtain rfl : Refusal.revisionExhausted = reason := by simpa using h
    rfl

theorem fairOutcome_planMigration (decoded : Decoded) :
    FairOutcome (planMigration setting inputs decoded) := by
  refine FairOutcome.bind ?_ fun assessment ↦ ?_
  · unfold assessVocabulary
    split
    · nofun
    · exact fairOutcome_ok _
    · dsimp only
      split
      · split_ifs <;> exact fairOutcome_ok _
      · split_ifs <;> exact fairOutcome_ok _
  · cases assessment with
    | current => exact fairOutcome_ok _
    | forged why => exact fairOutcome_fail nofun
    | upgrade source =>
      exact (fairOutcome_nextRevision _).bind fun _ ↦
        (fairOutcome_buildGraph inputs _ _ _ _ _).bind fun _ ↦ fairOutcome_ok _

theorem fairOutcome_planLoad (decoded : Decoded) :
    FairOutcome (planLoad setting inputs decoded) := by
  refine FairOutcome.bind ?_ fun _ ↦ (fairOutcome_planMigration setting inputs decoded).bind
    fun migration ↦ FairOutcome.bind ?_ fun stale ↦ ?_
  · unfold checkSeen
    dsimp only
    split
    · exact fairOutcome_fail nofun
    · split_ifs
      · exact fairOutcome_fail nofun
      · exact fairOutcome_fail nofun
      · exact fairOutcome_ok _
  · cases migration with
    | some m => exact fairOutcome_ok _
    | none =>
      refine FairOutcome.bind ?_ fun _ ↦ fairOutcome_ok _
      unfold isCanonical
      split
      · exact fairOutcome_ok _
      · split
        · exact fairOutcome_ok _
        · exact fairOutcome_ok _
        · nofun
  · dsimp only
    split_ifs
    · exact fairOutcome_fail nofun
    · refine FairOutcome.bind ?_ fun _ ↦ fairOutcome_ok _
      unfold planTransition
      split_ifs
      · exact (fairOutcome_nextRevision _).bind fun _ ↦
          (fairOutcome_buildGraph inputs _ _ _ _ _).bind fun _ ↦ fairOutcome_ok _
      · exact fairOutcome_ok _

end Fair

/-! ### Boot -/

/-- What the binary and root's files bring can be read back once it is written. -/
def BootInputs.Readable (inputs : BootInputs) : Prop :=
  StateGraph.Readable inputs.identity (some inputs.baseline) (some inputs.sync)

theorem built_of_buildGraph {layer initiator}
    (hread : Readable layer baseline sync)
    (h : buildGraph inputs layer baseline sync revision initiator = .ok g) : Built g :=
  ⟨layer, baseline, sync, _, _, revision, initiator, hread, mapError_eq_ok.mp h⟩

/-- Carrying forward keeps what a layer is read back by. -/
theorem readable_carryForward {file persisted unresolved}
    (h : Readable file baseline sync) :
    Readable (carryForward file unresolved persisted).1 baseline sync :=
  ⟨h.absolute, h.ceiling_ne, h.explicit_eq⟩

theorem readable_migratedLayer {stored file compiled}
    (h : Readable stored baseline sync) :
    Readable (migratedLayer stored file compiled).1 baseline sync := by
  have hsource : stored.source ≠ "" := fun heq ↦ by
    have := h.absolute
    rw [heq] at this
    exact absurd this (by decide)
  rw [migratedLayer, if_neg hsource]
  exact ⟨h.absolute, h.ceiling_ne, h.explicit_eq⟩

theorem built_of_planMigration (hread : decoded.Readable) {m}
    (h : planMigration setting inputs decoded = .ok (some m)) : Built m.next := by
  obtain ⟨assessment, -, h⟩ := bind_eq_ok.mp h
  cases assessment with
  | current | forged why => cases h
  | upgrade source =>
    obtain ⟨revision, -, next, hnext, h⟩ := bind₂_eq_ok.mp h
    cases pure_eq_ok.mp h
    exact built_of_buildGraph (readable_migratedLayer hread) hnext

/-- The graphs a load is going to put in place. -/
theorem built_of_planLoad (hinputs : inputs.Readable) (hread : decoded.Readable)
    (h : planLoad setting inputs decoded = .ok plan) :
    (∀ m, plan.migration = some m → Built m.next) ∧
      ∀ next, plan.transition = some next → Built next := by
  obtain ⟨⟨⟩, -, migration, hmigration, stale, -, h⟩ := bind₃_eq_ok.mp h
  dsimp only at h
  split_ifs at h with hrecorded
  · cases h
  obtain ⟨transition, htransition, rfl⟩ := bind_pure_eq_ok.mp h
  refine ⟨fun m hm ↦ ?_, fun next hnext ↦ ?_⟩
  · obtain rfl : migration = some m := hm
    exact built_of_planMigration hread hmigration
  · obtain rfl : transition = some next := hnext
    rw [planTransition] at htransition
    split_ifs at htransition
    · obtain ⟨revision, -, graph, hgraph, htransition⟩ := bind₂_eq_ok.mp htransition
      cases pure_eq_ok.mp htransition
      exact built_of_buildGraph (readable_carryForward hinputs) hgraph
    · cases htransition

/-- A store is in place and the process knows its revision. -/
def Settled (setting : Setting) (booted : Bool) (w : World) : Prop :=
  ∃ p, At setting booted (some p) p.1.revision w

/-- The graph is in place, in a file of this digest. -/
def InFile (setting : Setting) (booted : Bool) (g : Graph) (digest : Digest) (w : World) : Prop :=
  ∃ file, digest = setting.crypto.sha256 file ∧ At setting booted (some (g, file)) g.revision w

theorem framed_inFile : Framed (InFile setting booted g digest) :=
  fun _ _ hsame ⟨file, hdigest, h⟩ ↦ ⟨file, hdigest, framed_at _ _ hsame h⟩

theorem at_checkpointThen {β : Type} {b : β} :
    Triple (InFile setting booted g digest)
      (checkpoint g.revision digest anchor >>= fun _ ↦ pure b) (fun _ ↦ Settled setting booted)
      (Halted setting) := by
  refine triple_exists fun file ↦ Triple.of_fact (fun _ h ↦ h.1) fun hdigest ↦ ?_
  refine Triple.of_imp ?_ fun _ h ↦ h.2
  rw [hdigest]
  exact at_checkpoint.bind fun _ ↦ triple_pure fun w h ↦ ⟨(g, file), h⟩

theorem at_applyMigration {migration : Option PlannedMigration}
    (hbuilt : ∀ m, migration = some m → Built m.next) :
    Triple (Settled setting booted) (applyMigration setting report migration)
      (fun _ ↦ Settled setting booted) (Halted setting) := by
  cases migration with
  | none => exact triple_pure fun _ h ↦ h
  | some m =>
    refine triple_exists fun p ↦ ?_
    refine Triple.bind (at_append fun _ _ h ↦ nomatch h) fun _ ↦ ?_
    refine Triple.bind (at_persist (hbuilt m rfl) fun q hq hlt ↦ some.inj hq ▸ hlt)
      fun persisted ↦ ?_
    exact at_checkpointThen

theorem at_applyTransition {next : Option Graph} (hbuilt : ∀ g, next = some g → Built g) :
    Triple (Settled setting booted) (applyTransition setting inputs plan report next)
      (fun _ ↦ Settled setting booted) (Halted setting) := by
  cases next with
  | none => exact triple_pure fun _ h ↦ h
  | some next =>
    refine triple_exists fun p ↦ ?_
    refine Triple.bind (at_onlyIf (at_appendEach fun _ _ _ ↦ nofun)) fun _ ↦ ?_
    refine Triple.bind (at_onlyIf (at_appendEach fun _ _ _ ↦ nofun)) fun _ ↦ ?_
    refine Triple.bind (at_onlyIf (at_appendEach fun _ _ _ ↦ nofun)) fun _ ↦ ?_
    refine Triple.bind (at_append fun _ _ h ↦ nomatch h) fun _ ↦ ?_
    refine Triple.bind (at_persist (hbuilt next rfl) fun q hq hlt ↦ some.inj hq ▸ hlt)
      fun persisted ↦ ?_
    exact at_checkpointThen

theorem at_load {state} (hinputs : inputs.Readable) (hread : decoded.Readable)
    (hfacts : decoded.facts = ⟨p.1.revision, setting.crypto.sha256 p.2⟩) :
    Triple (At setting false (some p) floor) (load setting state decoded inputs)
      (fun _ ↦ Settled setting false) (Halted setting) := by
  refine Triple.bind ((fairOutcome_planLoad setting inputs decoded).triple_lift At.halted)
    fun plan ↦ ?_
  refine Triple.of_fact (fun _ h ↦ h.1) fun hplan ↦ ?_
  obtain ⟨hmigration, htransition⟩ := built_of_planLoad hinputs hread hplan
  rw [hfacts]
  refine Triple.bind (Q := fun _ ↦ At setting false (some p) p.1.revision)
    (triple_change fun w h ↦ ?_) fun _ ↦ ?_
  · exact { h.2 with
      floor_eq := fun hb ↦ absurd (h.2.booted_eq.symm.trans hb) (by simp), floor_is := rfl }
  refine at_checkpoint.bind fun _ ↦ ?_
  refine Triple.bind
    ((at_applyMigration hmigration).of_imp fun _ h ↦ ⟨p, h⟩) fun report ↦ ?_
  exact at_applyTransition htransition

theorem at_seed {authorized : Bool} {prior : Prior} (hinputs : inputs.Readable)
    (hlast : ∀ p, last = some p → p.1.revision < revision) :
    Triple (At setting booted last floor) (seed setting revision authorized prior inputs)
      (fun _ ↦ Settled setting booted) (Halted setting) := by
  refine triple_ite (fun _ ↦ triple_stop fun w ↦ At.halted _ w nofun) fun _ ↦ ?_
  refine triple_ite (fun _ ↦ triple_stop fun w ↦ At.halted _ w nofun) fun _ ↦ ?_
  refine Triple.bind ((fairOutcome_buildGraph inputs _ _ _ _ _).triple_lift At.halted)
    fun graph ↦ ?_
  refine Triple.of_fact (fun _ h ↦ h.1) fun hgraph ↦ ?_
  refine Triple.of_imp ?_ fun _ h ↦ h.2
  have hrevision : graph.revision = revision := revision_of_build (mapError_eq_ok.mp hgraph)
  refine Triple.bind (at_append fun _ _ h ↦ nomatch h) fun _ ↦ ?_
  refine Triple.bind (at_appendEach fun _ _ _ ↦ nofun) fun _ ↦ ?_
  refine Triple.bind (triple_preservePrior framed_at At.halted) fun rejected ↦ ?_
  refine Triple.bind (at_persist (built_of_buildGraph hinputs hgraph) fun p hp _ ↦
    hrevision ▸ hlast p hp) fun persisted ↦ ?_
  refine Triple.bind
    (triple_onlyIf (fun _ ↦ triple_removeMarker framed_inFile fun e w he ⟨_, _, h⟩ ↦
      h.halted e w he) fun _ _ h ↦ h) fun _ ↦ ?_
  rw [← hrevision]
  exact at_checkpointThen

end Sound

/-! ### A whole boot -/

section Boot

variable {setting : Setting} {last : Option (Graph × List UInt8)} {floor : UInt64}

/-- What a boot knows of the store in place. -/
def Known (setting : Setting) : Option (Graph × List UInt8) → Option Decoded → Prop
  | none, loaded => loaded = none
  | some p, loaded => ∃ d, loaded = some d ∧ d.Readable ∧
    d.facts = ⟨p.1.revision, setting.crypto.sha256 p.2⟩

variable {now : UInt64} {authorized : Bool} {loaded : Option Decoded} {newest : Option Checkpoint}
  {inputs : BootInputs}

theorem at_readPrior (hcrypto : setting.crypto.Lawful) :
    Triple (At setting false last floor) (readPrior setting authorized now)
      (fun r w ↦ Known setting last r.2 ∧ At setting false last floor w)
      (Halted setting) := by
  refine (triple_readStore framed_at At.halted).bind fun file ↦ ?_
  -- the store read is the one in place
  refine Triple.of_fact (p := file = last.map Prod.snd ∧
      ∀ p, last = some p → Built p.1 ∧ Sealed setting p.1 p.2)
    (fun w hw ↦ ⟨by rw [← hw.1, hw.2.store_eq, hw.2.last_eq], hw.2.last_eq ▸ hw.2.built⟩) ?_
  rintro ⟨rfl, hbuilt⟩
  cases last with
  | none => exact triple_pure fun w hw ↦ ⟨rfl, hw.2⟩
  | some p =>
    obtain ⟨d, hdecoded, hreadable, hfacts⟩ :=
      exists_decoded hcrypto (hbuilt p rfl).1 (hbuilt p rfl).2
    simp only [map_some, hdecoded]
    exact triple_pure fun w hw ↦ ⟨⟨d, rfl, hreadable, hfacts⟩, hw.2⟩

/-- The newest checkpoint is not ahead of the store in place. -/
def Covered (crypto : Crypto) (newest : Option Checkpoint) (last : Option (Graph × List UInt8)) :
    Prop :=
  ∀ c, newest = some c → ∃ p, last = some p ∧ c.revision ≤ p.1.revision ∧
    (c.revision = p.1.revision → c.digest = crypto.sha256 p.2)

theorem lt_of_checkedSucc {n m} (h : checkedSucc n = some m) : n < m := by
  rw [checkedSucc] at h
  split_ifs at h with hlt
  cases h
  rw [UInt64.lt_iff_toNat_lt, UInt64.toNat_ofNat_of_lt' hlt]
  exact Nat.lt_succ_self _

theorem le_max_revision (a b : UInt64) : a ≤ max a b := by
  show a ≤ if a ≤ b then b else a
  split_ifs with h
  · exact h
  · exact UInt64.le_refl a

/-- What the anchor may decide of a store of the daemon's own. -/
def Owed (last : Option (Graph × List UInt8)) : BootAction → Prop
  | .seedFirstBoot => last = none
  | .seedAuthorized revision => ∀ p, last = some p → p.1.revision < revision
  | .load _ => last.isSome
  | .refuse reason => reason = .revisionExhausted

/-- **The anchor does not refuse a store of the daemon's own.** -/
theorem owed_assess (hknown : Known setting last loaded)
    (hcovered : Covered setting.crypto newest last) :
    Owed last (assess (loaded.map Decoded.facts) newest authorized) := by
  unfold assess
  cases authorized with
  | true =>
    rw [if_pos rfl]
    dsimp only
    split
    · rename_i revision hsucc
      rintro p rfl
      obtain ⟨d, rfl, -, hfacts⟩ := hknown
      refine UInt64.lt_of_le_of_lt ?_ (lt_of_checkedSucc hsucc)
      rw [map_some, hfacts]
      exact le_max_revision _ _
    · rfl
  | false =>
    rw [if_neg Bool.false_ne_true]
    cases last with
    | none =>
      obtain rfl : loaded = none := hknown
      cases newest with
      | none => rfl
      | some c =>
        obtain ⟨p, hp, -⟩ := hcovered c rfl
        cases hp
    | some p =>
      obtain ⟨d, rfl, -, hfacts⟩ := hknown
      cases newest with
      | none => rfl
      | some c =>
        obtain ⟨q, hq, hle, hdigest⟩ := hcovered c rfl
        cases hq
        rw [map_some, hfacts]
        dsimp only
        rw [if_neg (UInt64.not_lt.mpr hle), if_neg fun h ↦ h.2 (hdigest h.1.symm).symm]
        split_ifs <;> rfl

theorem at_dispatch (hinputs : inputs.Readable) {prior} {action}
    (hknown : Known setting last loaded) (howed : Owed last action) :
    Triple (At setting false last floor) (dispatch setting inputs prior action loaded)
      (fun _ ↦ Settled setting false) (Halted setting) := by
  cases action with
  | refuse reason =>
    obtain rfl : reason = .revisionExhausted := howed
    exact triple_stop fun w h ↦ ⟨h.toSound, fun reason hreason ↦ by simpa using hreason.symm⟩
  | load state =>
    obtain ⟨p, rfl⟩ := isSome_iff_exists.mp howed
    obtain ⟨d, rfl, hreadable, hfacts⟩ := hknown
    exact at_load hinputs hreadable hfacts
  | seedFirstBoot =>
    obtain rfl : last = none := howed
    exact at_seed hinputs nofun
  | seedAuthorized revision => exact at_seed hinputs howed

/-- **A boot keeps the invariant, and does not refuse the store for the anchor.** -/
theorem at_boot (hcrypto : setting.crypto.Lawful) (hinputs : inputs.Readable)
    (hcovered : Covered setting.crypto newest last) :
    Triple (At setting false last floor) (boot setting newest now inputs)
      (fun _ ↦ Settled setting false) (Halted setting) := by
  refine (triple_reseedMarker framed_at At.halted).bind fun marker ↦ ?_
  refine (at_readPrior hcrypto).bind fun r ↦ ?_
  refine Triple.of_fact (fun _ h ↦ h.1) fun hknown ↦ ?_
  refine Triple.bind ((at_dispatch hinputs hknown (owed_assess hknown hcovered)).of_imp
    fun _ h ↦ h.2) fun report ↦ triple_pure fun _ h ↦ h

end Boot

/-! ### Commits -/

section Commit

variable {setting : Setting} {last : Option (Graph × List UInt8)} {floor : UInt64}

/-- **A transition keeps the invariant.** -/
theorem at_transition (setting : Setting) {next} (t : Transition) (hnext : Built next)
    (hfloor : ∀ p, last = some p → floor = p.1.revision) :
    Triple (At setting true last floor) (transition setting next t)
      (fun _ ↦ Sound setting) fun _ ↦ Sound setting := by
  refine Triple.bind (triple_checkTransition setting next t framed_at fun _ _ h ↦ h.toSound)
    fun _ ↦ ?_
  refine Triple.mono (E := Halted setting) ?_ (fun _ h ↦ h.1)
    (fun _ _ h ↦ h) fun _ _ h ↦ h.1
  refine Triple.bind (Q := fun _ ↦ At setting true last floor) ?_ fun _ ↦ ?_
  · refine Triple.bind (at_onlyIf (at_appendEach fun _ _ _ ↦ nofun)) fun _ ↦ ?_
    refine Triple.bind (at_onlyIf (at_appendEach fun _ _ _ ↦ nofun)) fun _ ↦ ?_
    refine Triple.bind (at_onlyIf (at_appendEach fun _ _ _ ↦ nofun)) fun _ ↦ ?_
    exact at_append fun _ _ h ↦ nomatch h
  refine Triple.bind (at_persist hnext fun p hp hlt ↦ hfloor p hp ▸ hlt) fun persisted ↦ ?_
  refine Triple.bind (triple_caught ?_) fun _ ↦ triple_pure fun _ h ↦ h
  refine triple_exists fun file ↦ Triple.of_fact (fun _ h ↦ h.1) fun hdigest ↦ ?_
  rw [hdigest]
  exact (at_checkpoint (p := (next, file))).mono (fun _ h ↦ h.2) (fun _ _ h ↦ h.toSound)
    fun _ _ h ↦ ⟨fun _ _ ↦ h.1, fun _ ↦ ⟨h.1, fair_died⟩⟩

end Commit

/-! ### Runs -/

/-- The process starts anew. -/
def World.restart (w : World) (chances : List Chance) : World :=
  { w with floor := 0, booted := false, chances }

/-- What can happen to a state directory and a trail that nobody tampers with. The process starts
and boots, with the newest checkpoint of a trail that may be in two parts; a process that booted
commits graphs it built; others append records, and root and the daemon work on the files beside the
store.

A process can end anywhere, since its chances can end anywhere, and it can be started at any time.
-/
inductive Step (setting : Setting) : World → World → Prop
  | boot {w w' : World} {before after : List Deed} {now : UInt64} {inputs : BootInputs}
      {chances : List Chance} {result : Except Stop BootReport}
      (hhistory : w.history = before ++ after) (hinputs : inputs.Readable)
      (hrun : State.boot setting (newer (lastCheckpoint before) (lastCheckpoint after)) now inputs
        (w.restart chances) = (result, w')) :
      Step setting w { w' with booted := result.isOk }
  | commit {w w' : World} {next : Graph} {released : List Identity.Released} {events : List String}
      {initiator : String} {result : Except Stop Committed} (hbooted : w.booted = true)
      (hnext : Built next)
      (hrun : State.commit setting next released events initiator w = (result, w')) :
      Step setting w w'
  | commitAccept {w w' : World} {next : Graph} {events : List String}
      {result : Except Stop Committed} (hbooted : w.booted = true) (hnext : Built next)
      (hrun : State.commitAccept setting next events w = (result, w')) : Step setting w w'
  | commitLive {w w' : World} {next : Graph} {released : List Identity.Released}
      {events : List String} {initiator : LiveInitiator} {result : Except Stop Committed}
      (hbooted : w.booted = true) (hnext : Built next)
      (hrun : State.commitLive setting next released events initiator w = (result, w')) :
      Step setting w w'
  | recorded (w : World) (text : String) : Step setting w (w.appended (.other text))
  | beside (w : World) (marker : Marker) (mirror : Option (List UInt8))
      (copies : Std.ExtTreeMap String (List UInt8) compare) :
      Step setting w { w with marker, mirror, copies }

/-- A world that a fresh directory and trail can come to. -/
def Reachable (setting : Setting) (w : World) : Prop :=
  ∃ marker, Relation.ReflTransGen (Step setting) (.fresh marker []) w

section Reachable

variable {setting : Setting} {w w' : World}

section

variable (h : Sound setting w)

include h

theorem Sound.at : At setting w.booted (lastPlaced w.history) w.floor w :=
  { h with booted_eq := rfl, last_eq := rfl, floor_is := rfl }

theorem Sound.restart (chances : List Chance) :
    At setting false (lastPlaced w.history) 0 (w.restart chances) :=
  { h with floor_eq := nofun, booted_eq := rfl, last_eq := rfl, floor_is := rfl }

theorem Sound.covered :
    Covered setting.crypto (lastCheckpoint w.history) (lastPlaced w.history) := fun _ hc ↦
  h.anchored.le_of_mem_checkpoints (mem_of_getLast? hc)

theorem Sound.transition (hbooted : w.booted = true) {next} (hnext : Built next) {t}
    {result : Except Stop Committed}
    (hrun : State.transition setting next t w = (result, w')) : Sound setting w' := by
  have htriple := at_transition setting t hnext (h.floor_eq hbooted)
  have hat : At setting true (lastPlaced w.history) w.floor w := hbooted ▸ h.at
  cases result with
  | error e => exact htriple.of_error hat hrun
  | ok c => exact htriple.of_ok hat hrun

/-- A boot from a sound world, whatever parts the trail is read in. -/
theorem Sound.boot (hcrypto : setting.crypto.Lawful) {before after}
    (hhistory : w.history = before ++ after) (now : UInt64) {inputs}
    (hinputs : inputs.Readable) (chances : List Chance) :
    Triple (· = w.restart chances)
      (State.boot setting (newer (lastCheckpoint before) (lastCheckpoint after)) now inputs)
      (fun _ ↦ Settled setting false) fun e w' ↦ Sound setting w' ∧ e.Fair := by
  have hanchored : Anchored setting.crypto (before ++ after) := hhistory ▸ h.anchored
  rw [hanchored.newer_eq, ← hhistory]
  exact (at_boot hcrypto hinputs h.covered).of_imp fun v hv ↦ hv ▸ h.restart chances

theorem Sound.step (hcrypto : setting.crypto.Lawful) (hstep : Step setting w w') :
    Sound setting w' := by
  cases hstep with
  | @boot w' before after now inputs chances result hhistory hinputs hrun =>
    have hboot := h.boot hcrypto hhistory now hinputs chances
    cases result with
    | error e => exact { (hboot.of_error rfl hrun).1 with floor_eq := nofun }
    | ok report =>
      obtain ⟨p, hp⟩ := hboot.of_ok rfl hrun
      refine { hp.toSound with floor_eq := fun _ q hq ↦ ?_ }
      cases hp.last_eq.symm.trans hq
      exact hp.floor_is
  | commit hbooted hnext hrun | commitAccept hbooted hnext hrun | commitLive hbooted hnext hrun =>
    exact h.transition hbooted hnext hrun
  | recorded text => exact (h.at.appended (r := .other text) nofun).toSound
  | beside marker mirror copies => exact framed_sound w _ ⟨rfl, rfl, rfl, rfl⟩ h

end

/-- **The invariant holds in every run.** -/
theorem sound_of_reachable (hcrypto : setting.crypto.Lawful) (h : Reachable setting w) :
    Sound setting w := by
  obtain ⟨marker, hrun⟩ := h
  induction hrun with
  | refl => exact ⟨.nil, rfl, nofun, nofun⟩
  | tail _ hstep ih => exact ih.step hcrypto hstep

end Reachable

/-! ### A store that was put back -/

/-- Nothing was written. -/
def Untouched (w₀ w : World) : Prop := ∃ chances, w = { w₀ with chances }

section Refused

variable {setting : Setting} {w₀ : World}

theorem untouched_chance {E : Stop → World → Prop} (hE : ∀ w, Untouched w₀ w → E .died w) :
    Triple (Untouched w₀) chance (fun _ ↦ Untouched w₀) E := by
  rintro w hw
  rw [chance]
  cases w.chances with
  | nil => exact hE w hw
  | cons c rest =>
    obtain ⟨chances, rfl⟩ := hw
    exact ⟨rest, rfl⟩

/-- How a boot ends that does not take the store: it is refused, or it was never read. -/
def Stop.NotTaken (reason : Refusal) (e : Stop) : Prop :=
  e = .failed (.refused reason) ∨ e = .died ∨ ∃ cause, e = .failed (.storeFileRefused cause)

variable {reason : Refusal}

theorem notTaken_died {w} (h : Untouched w₀ w) :
    Stop.died.NotTaken reason ∧ Untouched w₀ w :=
  ⟨.inr (.inl rfl), h⟩

/-- Root's marker is not there, and no failure to read it passes for one. -/
theorem untouched_reseedMarker (hmarker : w₀.marker ≠ .root) :
    Triple (Untouched w₀) reseedMarker
      (fun marker w ↦ marker.toOption.getD false = false ∧ Untouched w₀ w)
      fun e w ↦ e.NotTaken reason ∧ Untouched w₀ w := by
  refine (untouched_chance fun _ ↦ notTaken_died).bind fun c ↦ triple_state.bind fun w ↦ ?_
  refine Triple.of_fact (p := w.marker ≠ .root) ?_ fun hroot ↦ ?_
  · rintro w' ⟨rfl, chances, rfl⟩
    exact hmarker
  · split
    · exact triple_pure fun _ h ↦ ⟨rfl, h.2⟩
    · rename_i heq
      exact absurd heq hroot
    · exact triple_pure fun _ h ↦ ⟨rfl, h.2⟩
    · exact triple_pure fun _ h ↦ ⟨rfl, h.2⟩

theorem untouched_readStore {file} (hstore : w₀.store = some file) :
    Triple (Untouched w₀) readStore (fun read w ↦ read = some file ∧ Untouched w₀ w)
      fun e w ↦ e.NotTaken reason ∧ Untouched w₀ w := by
  refine (untouched_chance fun _ ↦ notTaken_died).bind fun c ↦ triple_state.bind fun w ↦ ?_
  refine Triple.of_fact (p := w.store = some file) ?_ fun hfile ↦ ?_
  · rintro w' ⟨rfl, chances, rfl⟩
    exact hstore
  · split
    · rename_i heq
      cases hfile.symm.trans heq
    · rename_i heq
      cases hfile.symm.trans heq
      split_ifs
      · exact triple_stop fun _ h ↦ ⟨.inr (.inr ⟨_, rfl⟩), h.2⟩
      · exact triple_pure fun _ h ↦ ⟨rfl, h.2⟩
    · exact triple_stop fun _ h ↦ ⟨.inr (.inr ⟨_, rfl⟩), h.2⟩

/-- **Without root's marker a boot refuses what the anchor refuses, and writes nothing.** -/
theorem boot_refuses {newest} (now : UInt64) (inputs : BootInputs)
    {file} {d} (hmarker : w₀.marker ≠ .root)
    (hstore : w₀.store = some file) (hdecoded : decodeStore setting file = .ok d)
    (hassess : assess (some d.facts) newest false = .refuse reason) :
    Triple (Untouched w₀) (boot setting newest now inputs) (fun _ _ ↦ False)
      fun e w ↦ e.NotTaken reason ∧ Untouched w₀ w := by
  refine (untouched_reseedMarker hmarker).bind fun marker ↦
    Triple.of_fact (fun _ h ↦ h.1) fun hauthorized ↦ ?_
  refine Triple.bind (Q := fun r w ↦ r.2 = some d ∧ Untouched w₀ w) ?_ fun r ↦ ?_
  · refine Triple.bind ((untouched_readStore hstore).of_imp fun _ h ↦ h.2) fun read ↦
      Triple.of_fact (fun _ h ↦ h.1) fun hread ↦ ?_
    subst hread
    simp only [hdecoded]
    exact triple_pure fun _ h ↦ ⟨rfl, h.2⟩
  · obtain ⟨prior, loaded⟩ := r
    refine Triple.of_fact (fun _ h ↦ h.1) fun hloaded ↦ ?_
    subst hloaded
    dsimp only
    rw [map_some, hauthorized, hassess]
    exact Triple.bind (triple_stop fun _ h ↦ ⟨.inl rfl, h.2⟩)
      fun _ _ ↦ False.elim

/-- Why the anchor refuses a store that is behind the checkpoint. -/
def behind (store checkpoint : UInt64) : Refusal :=
  if store < checkpoint then .rolledBack store checkpoint else .substituted store

theorem assess_of_behind {s c}
    (h : s.revision < c.revision ∨ s.revision = c.revision ∧ s.digest ≠ c.digest) :
    assess (some s) (some c) false = .refuse (behind s.revision c.revision) := by
  rcases h with hlt | h
  · simp [assess, behind, hlt]
  · simp [assess, behind, h]

end Refused

/-- **The rollback anchor, over whole runs.** However writes went and wherever the process ended,
the store in place is not behind the newest checkpoint and has its digest at its revision, so that
no boot refuses it for the anchor; revisions increase; and every checkpoint is that of a store put
in place before it. And a store that was put back, older than the newest checkpoint or with other
bytes at its revision, is refused by a boot that writes nothing, unless root asked for a reseed. -/
theorem rollback_anchor {setting : Setting} (hcrypto : setting.crypto.Lawful) {w : World}
    (hw : Reachable setting w) :
    (∀ c, lastCheckpoint w.history = some c → ∃ file d, w.store = some file ∧
      decodeStore setting file = .ok d ∧ c.revision ≤ d.graph.revision ∧
        (c.revision = d.graph.revision → setting.crypto.sha256 file = c.digest)) ∧
    (∀ before after now inputs chances reason w', w.history = before ++ after → inputs.Readable →
      boot setting (newer (lastCheckpoint before) (lastCheckpoint after)) now inputs
        (w.restart chances) = (.error (.failed (.refused reason)), w') →
      reason = .revisionExhausted) ∧
    ((placements w.history).Pairwise fun p q ↦ p.1.revision < q.1.revision) ∧
    (∀ before c anchor after, w.history = before ++ .appended (.checkpoint c anchor) :: after →
      ∃ p ∈ placements before, c = checkpointOf setting.crypto p) ∧
    (∀ c file d, lastCheckpoint w.history = some c → decodeStore setting file = .ok d →
      d.graph.revision < c.revision ∨ d.graph.revision = c.revision ∧
        (∀ p ∈ placements w.history, p.1.revision = c.revision → file ≠ p.2) →
      -- the digest tells the file apart from the stores that were put in place
      (∀ p ∈ placements w.history,
        setting.crypto.sha256 file = setting.crypto.sha256 p.2 → file = p.2) →
      w.marker ≠ .root → ∀ before after, w.history = before ++ after →
      ∀ now inputs chances, ∃ e chances', e.NotTaken (behind d.graph.revision c.revision) ∧
        boot setting (newer (lastCheckpoint before) (lastCheckpoint after)) now inputs
          { w.restart chances with store := some file } =
        (.error e, { w.restart chances with store := some file, chances := chances' })) := by
  have hsound := sound_of_reachable hcrypto hw
  refine ⟨fun c hc ↦ ?_, fun before after now inputs chances reason w' hhistory hinputs hrun ↦ ?_,
    hsound.anchored.increasing, fun before c anchor after ↦ hsound.anchored.exists_placed,
    fun c file d hc hdecoded hbehind hdigests hmarker before after hhistory now inputs chances ↦ ?_⟩
  · obtain ⟨p, hp, hle, hdigest⟩ := hsound.covered c hc
    obtain ⟨d, hdecoded, -, hfacts⟩ :=
      exists_decoded hcrypto (hsound.built p hp).1 (hsound.built p hp).2
    obtain ⟨hrevision, -⟩ := StoreFacts.mk.inj (hfacts.symm.trans (facts_of_decodeStore hdecoded))
    refine ⟨p.2, d, by rw [hsound.store_eq, hp, map_some], hdecoded, hrevision ▸ hle, ?_⟩
    exact fun heq ↦ (hdigest (heq.trans hrevision.symm)).symm
  · exact ((hsound.boot hcrypto hhistory now hinputs chances).of_error rfl hrun).2 reason rfl
  · have hanchored : Anchored setting.crypto (before ++ after) := hhistory ▸ hsound.anchored
    rw [hanchored.newer_eq, ← hhistory, hc]
    have hfacts := facts_of_decodeStore hdecoded
    have hassess : assess (some d.facts) (some c) false =
        .refuse (behind d.graph.revision c.revision) := by
      rw [hfacts]
      refine assess_of_behind (hbehind.imp_right fun ⟨heq, hother⟩ ↦ ⟨heq, fun hdigest ↦ ?_⟩)
      obtain ⟨p, hp, hcp⟩ := hsound.anchored.exists_placed_of_mem (mem_of_getLast? hc)
      rw [hcp] at hdigest hother
      exact hother p hp rfl (hdigests p hp hdigest)
    let start : World := { w.restart chances with store := some file }
    have hrefused := @boot_refuses setting start _ _ now inputs _ _ hmarker rfl hdecoded hassess
    rcases hrun : boot setting (some c) now inputs start with ⟨e | report, w'⟩
    · obtain ⟨htaken, chances', rfl⟩ := hrefused.of_error ⟨_, rfl⟩ hrun
      exact ⟨e, chances', htaken, rfl⟩
    · exact (hrefused.of_ok ⟨_, rfl⟩ hrun).elim

theorem readable_bare : BootInputs.bare.Readable :=
  ⟨by decide +kernel, fun bl hbl ↦ by cases hbl; decide +kernel,
    fun s hs ↦ by cases hs; decide +kernel⟩

/-- A boot is a step, however it ends. -/
theorem Step.of_boot (run : Except Stop BootReport × World)
    {setting w before after now inputs chances}
    (hhistory : w.history = before ++ after) (hinputs : inputs.Readable)
    (hrun : State.boot setting (newer (lastCheckpoint before) (lastCheckpoint after)) now inputs
      (w.restart chances) = run) : Step setting w { run.2 with booted := run.1.isOk } :=
  .boot hhistory hinputs hrun

theorem step_seededWorld (rest : List Chance) :
    Step .plain (.fresh .absent []) (seededWorld rest) :=
  .of_boot (seedingBoot rest) (append_nil []).symm readable_bare rfl

theorem rollback_anchor_seeded :
    let w := seededWorld [.fine]
    (lastCheckpoint w.history).map Checkpoint.revision = some 1 ∧
    ∀ c, lastCheckpoint w.history = some c → ∃ file d, w.store = some file ∧
      decodeStore .plain file = .ok d ∧ c.revision ≤ d.graph.revision ∧
        (c.revision = d.graph.revision → Setting.plain.crypto.sha256 file = c.digest) :=
  ⟨by decide +kernel, (rollback_anchor Crypto.plain_lawful ⟨_, .single (step_seededWorld _)⟩).1⟩

/-- A first boot whose checkpoint was not written, and root's wish to seed the store again. -/
def unrecordedWorld : World :=
  { seededWorld [{ Chance.fine with fate := .failed }] with marker := .root }

/-- The boot after it, under another wrapping key. -/
def rekeyedBoot : Except Stop BootReport × World :=
  boot { Setting.plain with key := replicate keyLen 1 }
    (newer (lastCheckpoint unrecordedWorld.history) (lastCheckpoint [])) 0 .bare
    (unrecordedWorld.restart (replicate 11 .fine))

def rekeyedWorld : World := { rekeyedBoot.2 with booted := rekeyedBoot.1.isOk }

theorem revisions_rekeyedWorld :
    (placements rekeyedWorld.history).map (fun p ↦ p.1.revision) = [1, 1] := by
  decide +kernel

/-- **Under another wrapping key a revision is used twice.** The store cannot be read any more, and
no checkpoint tells of it; so the reseed takes its revision again. -/
theorem revision_repeats_under_another_key :
    ∃ w, Relation.ReflTransGen (fun w w' ↦ ∃ key, Step { Setting.plain with key } w w')
        (.fresh .absent []) w ∧
      (placements w.history).map (fun p ↦ p.1.revision) = [1, 1] := by
  have hseeded := step_seededWorld [{ Chance.fine with fate := .failed }]
  have hmarked : Step .plain (seededWorld _) unrecordedWorld := .beside _ .root _ _
  have hrekeyed : Step { Setting.plain with key := replicate keyLen 1 } unrecordedWorld
      rekeyedWorld :=
    .of_boot rekeyedBoot (append_nil _).symm readable_bare rfl
  refine ⟨rekeyedWorld, ?_, revisions_rekeyedWorld⟩
  exact .tail (.tail (.single ⟨_, hseeded⟩) ⟨Setting.plain.key, hmarked⟩) ⟨_, hrekeyed⟩

end Maknae.State
