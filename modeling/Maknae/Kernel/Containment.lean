import Maknae.Authz.RoleSpec
import Maknae.Config.LiveEdit

/-!
# Containment and release

An operator contains a uid and releases it again without touching the bindings file. A uid can be
contained through its own entry, through several names, and through a name that no longer resolves
and is only carried forward, so a release first collects every claimant from the stored layer:
`releaseTarget` is the uid it acts on and `releaseNames` the names that claim it.

By `contains_nextLayer_iff_claimed` the contained uids of a layer are those its own claims give the
entries under `adversary`. An entry is among the targets of a release exactly when its claim is the
released uid (`mem_targets_resolve_iff`), and the theorem on releases follows.
-/

namespace Maknae.Kernel

open Authz Config List StateGraph

/-! ### The operation -/

/-- The stored layer binds the uid as an adversary. -/
def isContained (layer : IdentityLayer) (uid : UInt32) : Bool :=
  layer.subjects.any fun s ↦ s.uid == uid && s.role == adversary

/-- The uid a release acts on: the one the name claims, else the given one. -/
def releaseTarget (uid : UInt32) (named : Option String) (claims : Claims) : UInt32 :=
  (named.bind fun n ↦ claims[n]?).getD uid

/-- Every adversary name that claims the uid, and the name the request gave. -/
def releaseNames (uid : UInt32) (named : Option String) (claims : Claims) :
    Std.ExtTreeSet String compare :=
  .ofList ((claims.toList.filter fun c ↦ c.2 == uid).map Prod.fst ++ named.toList) compare

/-- A live edit, or a release whose claimants are resolved in the turn. -/
inductive LiveOp
  | edit (e : LiveEdit)
  | release (uid : UInt32) (named : Option String)

/-- The edit an operation is, given the claims of the stored layer. -/
def LiveOp.resolve (claims : Claims) : LiveOp → LiveEdit
  | edit e => e
  | release uid named =>
    let target := releaseTarget uid named claims
    .releaseUid target (releaseNames target named claims)

variable {uid : UInt32} {named : Option String} {claims : Claims} {e : BindingEntry} {map : RoleMap}
  {edited : Edited} {conflicts : EntrySet} {load : Load}

theorem isContained_iff {layer} :
    isContained layer uid = true ↔ layer.Contains uid := by
  simp [isContained, IdentityLayer.Contains]

theorem mem_releaseNames_iff {n} :
    n ∈ releaseNames uid named claims ↔ claims[n]? = some uid ∨ named = some n := by
  rw [releaseNames, Std.ExtTreeSet.mem_ofList, contains_iff_mem, mem_append, Option.mem_toList]
  refine or_congr_left ?_
  rw [mem_map]
  constructor
  · rintro ⟨⟨n, u⟩, hmem, rfl⟩
    obtain ⟨hclaim, hu⟩ := mem_filter.mp hmem
    obtain rfl : u = uid := eq_of_beq hu
    exact Std.ExtTreeMap.mem_toList_iff_getElem?_eq_some.mp hclaim
  · intro hclaim
    refine ⟨(n, uid), mem_filter.mpr ⟨?_, beq_self_eq_true uid⟩, rfl⟩
    exact Std.ExtTreeMap.mem_toList_iff_getElem?_eq_some.mpr hclaim

/-- **An entry is a target of a release exactly when it claims the released uid.** -/
theorem mem_targets_resolve_iff {uid v} (h : entryUid claims e = some v) :
    e ∈ ((LiveOp.release uid named).resolve claims).targets ↔
      v = releaseTarget uid named claims := by
  cases e with
  | uid w =>
    obtain rfl : w = v := Option.some.inj h
    simp [LiveOp.resolve, LiveEdit.targets]
  | name n =>
    have hclaim : claims[n]? = some v := h
    have hmem : .name n ∈ ((LiveOp.release uid named).resolve claims).targets ↔
        n ∈ releaseNames (releaseTarget uid named claims) named claims := by
      simp [LiveOp.resolve, LiveEdit.targets]
    rw [hmem, mem_releaseNames_iff, hclaim, Option.some_inj, or_iff_left_iff_imp]
    -- the name of the request claims the target
    rintro rfl
    rw [releaseTarget, Option.bind_some, hclaim, Option.getD_some]

/-! ### The section after a release -/

/-- What a release leaves of the lists: the targets are gone from `adversary`, and nothing else
changes. -/
structure ReleasedFrom (map map' : RoleMap) (targets : List BindingEntry) : Prop where
  mem_adversary_iff : ∀ e, e ∈ entriesAt (some map') adversary ↔
    e ∈ entriesAt (some map) adversary ∧ e ∉ targets
  mem_iff : ∀ key, key ≠ adversary → ∀ e,
    e ∈ entriesAt (some map') key ↔ e ∈ entriesAt (some map) key

theorem mem_entriesAt_iff_rolesOf {key} :
    e ∈ entriesAt (some map) key ↔ key ∈ (Section.present map).rolesOf e :=
  mem_entriesAt.trans Section.mem_rolesOf_present.symm

theorem releasedFrom_of_applyEdit {base map map'}
    {names : Std.ExtTreeSet String compare}
    (h : applyEdit base (.present map) conflicts (.releaseUid uid names) = .ok (some edited))
    (hlive : edited.live = .present map') :
    ReleasedFrom map map' (LiveEdit.releaseUid uid names).targets := by
  obtain ⟨changed, hsection, -⟩ := applyEdit_eq_ok h
  have hroles := rolesOf_of_editSection hsection
  rw [hlive] at hroles
  constructor
  · intro e
    rw [mem_entriesAt_iff_rolesOf, mem_entriesAt_iff_rolesOf, hroles]
    split_ifs with htarget
    · simp [LiveEdit.newRoles, htarget, show adversaryRole = adversary from rfl]
    · simp [htarget]
  · intro key hkey e
    rw [mem_entriesAt_iff_rolesOf, mem_entriesAt_iff_rolesOf, hroles]
    split_ifs with htarget
    · have hne : ¬adversaryRole = key := fun heq ↦ hkey heq.symm
      simp [LiveEdit.newRoles, hne]
    · rfl

/-- The edited section is present. -/
theorem exists_live_of_applyEdit {base live edit}
    (h : applyEdit base live conflicts edit = .ok (some edited)) :
    live.isPresent = true ∧ edited.live.isPresent = true := by
  obtain ⟨changed, hsection, -⟩ := applyEdit_eq_ok h
  obtain ⟨hbase, hlive, -, hnext, -⟩ := editSection_eq_ok hsection
  refine ⟨hlive, ?_⟩
  rw [hnext]
  cases base with
  | missing | absent => cases hbase
  | present file => rfl

/-! ### Releases -/

/-- The layers a load leaves in the store: the declared one, and the one with the containments of an
earlier layer carried onto it. -/
inductive Leaves (load : Load) : IdentityLayer → Prop
  | boot : Leaves load load.file
  | reload (persisted : IdentityLayer) : Leaves load (nextLayer persisted load)

/-- The layer of a first load carries nothing. -/
theorem Leaves.exists_persisted {stored} (h : Leaves load stored) :
    ∃ persisted, stored = nextLayer persisted load := by
  cases h with
  | boot =>
    refine ⟨⟨"", "", none, [], ∅⟩, (nextLayer_of_claims_eq_empty load _ ?_).symm⟩
    rfl
  | reload persisted => exact ⟨persisted, rfl⟩

section Release

variable {load load' : Load} {map map' : RoleMap} {targets : List BindingEntry}
  (hreleased : ReleasedFrom map map' targets)
  (hmap : ∀ n key, .name n ∈ entriesAt (some map') key →
    (found load'.source.lookups)[n]? = (found load.source.lookups)[n]?)

include hreleased hmap

/-- The uids listed under another role than `adversary` are those listed before. -/
theorem listed_of_releasedFrom {uid role} (hrole : role ≠ .adversary) :
    listed map' (found load'.source.lookups) uid role =
      listed map (found load.source.lookups) uid role := by
  have hkey : role.key ≠ adversary := by
    cases role <;> first | exact absurd rfl hrole | decide
  have hentry {e : BindingEntry} (he : e ∈ entriesAt (some map') role.key) :
      entryUid (found load'.source.lookups) e = entryUid (found load.source.lookups) e := by
    cases e with
    | uid u => rfl
    | name n => exact hmap n _ he
  rw [Bool.eq_iff_iff, listed_eq_true_iff, listed_eq_true_iff]
  constructor
  · rintro ⟨e, he, huid⟩
    exact ⟨e, (hreleased.mem_iff _ hkey e).mp he, (hentry he).symm.trans huid⟩
  · rintro ⟨e, he, huid⟩
    have he := (hreleased.mem_iff _ hkey e).mpr he
    exact ⟨e, he, (hentry he).trans huid⟩

variable (hroles : load.source.bindings.roles = some map)
  (hroles' : load'.source.bindings.roles = some map') (persisted : IdentityLayer)

include hroles hroles'

/-- The entries that stay under `adversary` keep their claims. -/
theorem entryUid_claims_nextLayer {e} (he : e ∈ entriesAt (some map') adversary) :
    entryUid (nextLayer (nextLayer persisted load) load').claims e =
      entryUid (nextLayer persisted load).claims e := by
  cases e with
  | uid u => rfl
  | name n =>
    show (nextLayer (nextLayer persisted load) load').claims[n]? =
      (nextLayer persisted load).claims[n]?
    cases hlookup : (found load'.source.lookups)[n]? with
    | none =>
      exact getElem?_claims_nextLayer load' _
        ((mem_unresolvedAdversaries_iff hroles').mpr ⟨he, hlookup⟩)
    | some u =>
      have hbefore := ((hreleased.mem_adversary_iff _).mp he).1
      rw [getElem?_claims_nextLayer_of_resolved hroles' _ u he hlookup,
        getElem?_claims_nextLayer_of_resolved hroles _ u hbefore ((hmap n _ he).symm.trans hlookup)]

/-- The contained uids are those that were, less the ones whose entries are targets. -/
theorem contains_of_releasedFrom {target v}
    (htarget : ∀ e w, entryUid (nextLayer persisted load).claims e = some w →
      (e ∈ targets ↔ w = target)) :
    (nextLayer (nextLayer persisted load) load').Contains v ↔
      (nextLayer persisted load).Contains v ∧ v ≠ target := by
  have hclaims {e : BindingEntry} (he : e ∈ entriesAt (some map') adversary) :=
    entryUid_claims_nextLayer hreleased hmap hroles hroles' persisted he
  rw [contains_nextLayer_iff_claimed hroles', contains_nextLayer_iff_claimed hroles]
  constructor
  · rintro ⟨e, he, huid⟩
    rw [hclaims he] at huid
    obtain ⟨hbefore, hnot⟩ := (hreleased.mem_adversary_iff e).mp he
    exact ⟨⟨e, hbefore, huid⟩, fun heq ↦ hnot ((htarget e v huid).mpr heq)⟩
  · rintro ⟨⟨e, hbefore, huid⟩, hne⟩
    have he : e ∈ entriesAt (some map') adversary :=
      (hreleased.mem_adversary_iff e).mpr ⟨hbefore, fun hmem ↦ hne ((htarget e v huid).mp hmem)⟩
    exact ⟨e, he, (hclaims he).trans huid⟩

end Release

/-- The role of a uid in a layer: contained, or the one role it is listed under. -/
theorem subjectRole_nextLayer_eq (hroles : load.source.bindings.roles = some map)
    (persisted : IdentityLayer) (uid : UInt32) :
    ((nextLayer persisted load).Contains uid ∧
      subjectRole (nextLayer persisted load) uid = some .adversary) ∨
    (¬(nextLayer persisted load).Contains uid ∧
      listed map (found load.source.lookups) uid .adversary = false ∧
      subjectRole (nextLayer persisted load) uid =
        soleRole (listed map (found load.source.lookups) uid)) := by
  rw [subjectRole_nextLayer hroles, contains_nextLayer_iff hroles, ← Bool.or_eq_true]
  by_cases hcontained : (listed map (found load.source.lookups) uid .adversary ||
      carriedFor map (found load.source.lookups) persisted.claims uid) = true
  · exact .inl ⟨hcontained, if_pos hcontained⟩
  · refine .inr ⟨hcontained, ?_, if_neg hcontained⟩
    rw [Bool.not_eq_true, Bool.or_eq_false_iff] at hcontained
    exact hcontained.1

/-- **A release is complete and touches nobody else.** The stored layer is one a load left, the
release takes its claimants from that layer, and the next layer is that of the edited section, read
with the same answers for the names it binds and carried onto the stored layer. Then the target is
not contained any more, and every other uid keeps its containment and its role. -/
theorem release_complete {load load' : Load} {stored : IdentityLayer} (hstored : Leaves load stored)
    {uid : UInt32} {named : Option String} {base : Section} {conflicts : EntrySet} {edited : Edited}
    (hedit : applyEdit base (.ofBindings load.source.bindings) conflicts
      ((LiveOp.release uid named).resolve stored.claims) = .ok (some edited))
    (hnext : Section.ofBindings load'.source.bindings = edited.live)
    (hmap : ∀ n, .name n ∈ edited.live.entries →
      (found load'.source.lookups)[n]? = (found load.source.lookups)[n]?) :
    isContained (nextLayer stored load') (releaseTarget uid named stored.claims) = false ∧
      ∀ v, v ≠ releaseTarget uid named stored.claims →
        (isContained stored v = true → isContained (nextLayer stored load') v = true) ∧
          subjectRole (nextLayer stored load') v = subjectRole stored v := by
  obtain ⟨persisted, rfl⟩ := hstored.exists_persisted
  obtain ⟨hlive, hlive'⟩ := exists_live_of_applyEdit hedit
  obtain ⟨map, hsection, hroles⟩ := Section.exists_roles_of_isPresent hlive
  obtain ⟨map', hsection', hroles'⟩ := Section.exists_roles_of_isPresent (hnext ▸ hlive')
  have hedited : edited.live = .present map' := hnext.symm.trans hsection'
  rw [hsection] at hedit
  have hreleased := releasedFrom_of_applyEdit hedit hedited
  have hmap : ∀ n key, .name n ∈ entriesAt (some map') key →
      (found load'.source.lookups)[n]? = (found load.source.lookups)[n]? := by
    intro n key hn
    refine hmap n (Section.mem_entries.mpr ⟨key, ?_⟩)
    rw [hedited]
    exact mem_entriesAt_iff_rolesOf.mp hn
  have hcontains (v : UInt32) := contains_of_releasedFrom (v := v) hreleased hmap hroles
    hroles' persisted fun e w hw ↦ mem_targets_resolve_iff hw
  refine ⟨?_, fun v hv ↦ ⟨fun h ↦ ?_, ?_⟩⟩
  · rw [← Bool.not_eq_true, isContained_iff, hcontains]
    exact fun h ↦ h.2 rfl
  · rw [isContained_iff] at h ⊢
    exact (hcontains v).mpr ⟨h, hv⟩
  · rcases subjectRole_nextLayer_eq hroles' (nextLayer persisted load) v with
      ⟨hcontained', hrole'⟩ | ⟨hcontained', hlisted', hrole'⟩
    all_goals rcases subjectRole_nextLayer_eq hroles persisted v with
      ⟨hcontained, hrole⟩ | ⟨hcontained, hlisted, hrole⟩
    · rw [hrole, hrole']
    · exact absurd ((hcontains v).mp hcontained').1 hcontained
    · exact absurd ((hcontains v).mpr ⟨hcontained, hv⟩) hcontained'
    · -- contained in neither, so the one listed role decides, and the lists agree
      rw [hrole, hrole']
      congr 1
      funext role
      by_cases hadversary : role = .adversary
      · rw [hadversary, hlisted, hlisted']
      · exact listed_of_releasedFrom hreleased hmap hadversary

/-- Bindings that contain one uid twice, and another. -/
def containedTwice : Bindings :=
  .read (.map [("admin", .seq [.str "alex"]),
      ("adversary", .seq [.str "mallory", .map [("uid", .int 666)], .str "eve"])])
    (.ofList [("admin", [.name "alex"]),
      ("adversary", [.name "mallory", .uid 666, .name "eve"])] compare) rfl

/-- Bindings that contain the other alone. -/
def containedOnce : Bindings :=
  .read (.map [("admin", .seq [.str "alex"]), ("adversary", .seq [.str "eve"])])
    (.ofList [("admin", [.name "alex"]), ("adversary", [.name "eve"])] compare) rfl

/-- The answers of a host that has no account for the released name. -/
def containedLookups : Lookups :=
  .ofList [("alex", some 501), ("mallory", none), ("eve", some 667)] compare

/-- A load of bindings that resolve on it. -/
def containedLoad (bindings : Bindings)
    (h : (resolveSubjects bindings (found containedLookups)).toOption.isSome) : Load where
  source :=
    { bindings
      lookups := containedLookups
      resolved := (resolveSubjects bindings (found containedLookups)).toOption.get h
      identitySource := "/etc/maknae/bindings.yaml"
      resolved_eq := Except.eq_ok_of_toOption (Option.some_get _).symm }
  label := "U"
  bindingsSha256 := none

def twiceLoad : Load := containedLoad containedTwice (by decide +kernel)

def onceLoad : Load := containedLoad containedOnce (by decide +kernel)

/-- The layer that still claims the deleted account. -/
def twiceStored : IdentityLayer := nextLayer malloryLayer twiceLoad

/-- The uid is released through its own entry and the name carried for it; the other stays contained
and the admin stays one. -/
theorem release_complete_mallory :
    isContained twiceStored 666 = true ∧ isContained (nextLayer twiceStored onceLoad) 666 = false ∧
      isContained (nextLayer twiceStored onceLoad) 667 = true ∧
      subjectRole (nextLayer twiceStored onceLoad) 501 = some .admin := by
  have hedits : (applyEdit (.ofBindings containedTwice) (.ofBindings containedTwice) ∅
      ((LiveOp.release 666 (some "mallory")).resolve twiceStored.claims)).toOption.any
        (·.any fun edited ↦ edited.live = .ofBindings containedOnce) = true := by
    decide +kernel
  obtain ⟨out, hout, hany⟩ := Option.any_eq_true _ _ |>.mp hedits
  obtain ⟨edited, rfl, hlive⟩ := Option.any_eq_true _ _ |>.mp hany
  have htarget : releaseTarget 666 (some "mallory") twiceStored.claims = 666 := by decide +kernel
  obtain ⟨hreleased, hothers⟩ := release_complete (Leaves.reload malloryLayer : Leaves twiceLoad _)
    (Except.eq_ok_of_toOption hout)
    (show Section.ofBindings onceLoad.source.bindings = _ from (of_decide_eq_true hlive).symm)
    fun _ _ ↦ rfl
  rw [show nextLayer malloryLayer twiceLoad = twiceStored from rfl, htarget] at hreleased hothers
  refine ⟨by decide +kernel, hreleased, (hothers 667 (by decide)).1 (by decide +kernel), ?_⟩
  decide +kernel

end Maknae.Kernel
